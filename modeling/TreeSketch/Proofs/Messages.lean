import TreeSketch.Program
import TreeSketch.Proofs.Resolution

/-! # What the program says

    The texts that a user reads are written out here once more, apart from
    the definitions that make them: what a cause says (`Cause.Reads`), what
    a report of a failed drawing is (`report_access`), and what is said when
    the arguments stop (`CommandLine.Stop.Says`).

    A directory can be refused for six causes only, whatever the file
    system (`FileSystem.exists_reads`), since every lookup fails for one of
    them or arrives; so these are all that a report can end with. -/

namespace TreeSketch

/-! ## Causes -/

/-- What the cause says for which a directory is refused. -/
inductive Cause.Reads : Cause → String → Prop where
  | notFound : Reads (.system .notFound) "No such file or directory (os error 2)"
  | permissionDenied : Reads (.system .permissionDenied) "Permission denied (os error 13)"
  | notDirectory : Reads (.system .notDirectory) "Not a directory (os error 20)"
  | nameTooLong : Reads (.system .nameTooLong) "File name too long (os error 36)"
  | linkLoop : Reads (.system .linkLoop) "Too many levels of symbolic links (os error 40)"
  | nulInPath : Reads .nulInPath "file name contained an unexpected NUL byte"

theorem Cause.Reads.message_eq {cause : Cause} {text : String} (h : cause.Reads text) :
    cause.message = text := by
  cases h <;> rfl

/-- That a lookup may fail for an error. -/
def SystemError.IsOfLookup (e : SystemError) : Prop :=
  ∃ text, Cause.Reads (.system e) text

namespace Place

theorem isOfLookup_of_step {here : Place} {piece : Name} {e : SystemError}
    (h : here.step piece = .error e) : e.IsOfLookup := by
  rw [step] at h
  split at h
  · split at h
    · cases h
    split at h
    · cases h; exact ⟨_, .permissionDenied⟩
    split at h
    · cases h
    split at h
    · cases h
    split at h
    · cases h; exact ⟨_, .nameTooLong⟩
    split at h
    · cases h; exact ⟨_, .notFound⟩
    · cases h
    · cases h
  · cases h; exact ⟨_, .notDirectory⟩

theorem isOfLookup_of_walk {follow : Place → Path → List Name → Except SystemError Place}
    {e : SystemError}
    (hfollow : ∀ here target rest, follow here target rest = .error e → e.IsOfLookup)
    {pieces : List Name} : ∀ {here : Place}, walk follow here pieces = .error e → e.IsOfLookup := by
  induction pieces with
  | nil => intro here h; cases h
  | cons piece rest ih =>
      intro here h
      rw [walk] at h
      cases hlookup : here.step piece with
      | error e' =>
          rw [hlookup] at h
          exact Except.error.inj h ▸ isOfLookup_of_step hlookup
      | ok step =>
          rw [hlookup] at h
          cases step with
          | arrive next => exact ih h
          | follow target => exact hfollow here target rest h

/-- A resolution fails as one of its lookups does, or for too many links. -/
theorem isOfLookup_of_resolve {top : Place} {e : SystemError} {links : Nat} :
    ∀ {pieces : List Name} {here : Place}, top.resolve links here pieces = .error e →
      e.IsOfLookup := by
  induction links with
  | zero =>
      intro pieces here h
      refine isOfLookup_of_walk ?_ h
      intro _ _ _ hfollow
      exact Except.error.inj hfollow ▸ ⟨_, .linkLoop⟩
  | succ links ih =>
      intro pieces here h
      exact isOfLookup_of_walk (fun _ _ _ hfollow => ih hfollow) h

end Place

namespace FileSystem

variable {files : FileSystem} {path : Path} {cause : Cause}

theorem exists_reads_of_resolve (h : files.resolve path = .error cause) :
    ∃ text, cause.Reads text := by
  rw [resolve] at h
  split at h
  · cases h; exact ⟨_, .nulInPath⟩
  split at h
  · cases h; exact ⟨_, .notFound⟩
  split at h
  · cases h; exact ⟨_, .nameTooLong⟩
  · cases hpieces : (Place.top files).resolve Path.linkLimit (files.origin path) path.pieces with
    | ok place => rw [hpieces] at h; cases h
    | error e =>
        rw [hpieces] at h
        exact Except.error.inj h ▸ Place.isOfLookup_of_resolve hpieces

/-- **SIX CAUSES**: a directory is refused for one of the six causes. -/
theorem exists_reads (h : files.readNames path = .error cause) : ∃ text, cause.Reads text := by
  rw [readNames] at h
  cases hresolve : files.resolve path with
  | error cause' =>
      rw [hresolve] at h
      exact Except.error.inj h ▸ exists_reads_of_resolve hresolve
  | ok place =>
      simp only [hresolve] at h
      split at h
      · split at h
        · cases h
        · cases h; exact ⟨_, .permissionDenied⟩
      · cases h; exact ⟨_, .notDirectory⟩

end FileSystem

/-! ## Reports -/

/-- A message as it stands in a report: in lines, all but the first behind
    seven blanks. -/
def inReport (message : String) : String :=
  String.ofList ("\n       ".toList.intercalate (message.toList.splitOn '\n'))

/-- Lines are put behind blanks by adding these to every line's end. -/
theorem intercalate_splitOn_newline (text : List Char) :
    "\n       ".toList.intercalate (text.splitOn '\n') =
      text.flatMap fun c => if c = '\n' then c :: List.replicate 7 ' ' else [c] := by
  induction text with
  | nil => rfl
  | cons c rest ih =>
      have hne := List.splitOn_ne_nil '\n' rest
      rw [List.flatMap_cons, ← ih]
      by_cases hc : c = '\n'
      · have hbeq : (c == '\n') = true := beq_iff_eq.mpr hc
        rw [if_pos hc, List.splitOn_cons_eq_if_modifyHead, if_pos hbeq,
          List.intercalate_cons_of_ne_nil hne, hc]
        rfl
      · have hbeq : ¬ (c == '\n') = true := fun h => hc (beq_iff_eq.mp h)
        obtain ⟨first, more, hsplit⟩ := List.exists_cons_of_ne_nil hne
        rw [if_neg hc, List.splitOn_cons_eq_if_modifyHead, if_neg hbeq, hsplit]
        cases more <;> rfl

theorem Error.causeText_eq (number : Nat) (message : String) :
    causeText number message =
      "    " ++ toString number ++ ": " ++ inReport message ++ "\n" := by
  rw [causeText, inReport, intercalate_splitOn_newline]

/-- **THE REPORT** of a directory that cannot be read: what failed, and as its
    causes the directory and why it is refused, once each and in this
    order. -/
theorem Error.report_access {cause : Cause} {text : String} (h : cause.Reads text)
    (root dir : Path) :
    (Error.access dir cause).report root =
      "Error: " ++ "failed to render tree for " ++ Text.decodeLossy root ++ "\n\n" ++
        "Caused by:\n" ++
        "    0: " ++ inReport ("cannot read directory " ++ Text.decodeLossy dir) ++ "\n" ++
        "    1: " ++ text ++ "\n" := by
  have hline : inReport text = text := by cases h <;> cbv
  have hfirst : causeText 0 (Error.access dir cause).message =
      "    0: " ++ inReport ("cannot read directory " ++ Text.decodeLossy dir) ++ "\n" :=
    causeText_eq 0 _
  have hsecond : causeText 1 cause.message = "    1: " ++ text ++ "\n" := by
    rw [causeText_eq, h.message_eq, hline]
    rfl
  have hcauses : String.join ((Error.access dir cause).causes.mapIdx causeText) =
      causeText 0 (Error.access dir cause).message ++ causeText 1 cause.message := by
    show "" ++ _ ++ _ = _
    rw [String.empty_append]
    rfl
  have hhead : "\n\nCaused by:\n" = "\n\n" ++ "Caused by:\n" := rfl
  rw [report, reportOf, hcauses, hfirst, hsecond, hhead, Path.shown]
  simp only [String.append_assoc]

/-! ## Stops -/

namespace CommandLine

/-- How an option is called with its value. -/
inductive Flag.Reads : Flag → String → Prop where
  | level : Reads .level "--level <MAX_LEVEL>"
  | help : Reads .help "--help"
  | version : Reads .version "--version"

/-- How a usage line calls the path. -/
inductive PathPart.Reads : PathPart → String → Prop where
  | optional : Reads .optional "[PATH]"
  | given : Reads .given "<PATH>"
  | orLevel : Reads .orLevel "<PATH|--level <MAX_LEVEL>>"

/-- What a usage line says: that there are options and a path, or which ones
    have been given. -/
inductive Usage.Reads : Usage → String → Prop where
  | general : Reads ⟨[], .optional⟩ "Usage: dirtree [OPTIONS] [PATH]"
  | particular {flags : List Flag} {options : List String} {path : PathPart} {text : String}
      (hflags : List.Forall₂ Flag.Reads flags options) (hpath : path.Reads text)
      (hne : Usage.mk flags path ≠ ⟨[], .optional⟩) :
      Reads ⟨flags, path⟩ ("Usage: dirtree " ++ " ".intercalate (options ++ [text]))

/-- What a tip says. -/
inductive Tip.Reads : Tip → String → Prop where
  | none : Reads .none ""
  | separate (arg : String) : Reads (.separate arg)
      ("  tip: to pass '" ++ Text.plain arg ++ "' as a value, use '-- " ++ Text.plain arg ++
        "'\n\n")
  | level : Reads (.similar .level) "  tip: a similar argument exists: '--level'\n\n"
  | help : Reads (.similar .help) "  tip: a similar argument exists: '--help'\n\n"
  | version : Reads (.similar .version) "  tip: a similar argument exists: '--version'\n\n"

/-- What is wrong with the value of a level. -/
inductive LevelError.Reads : LevelError → String → Prop where
  | empty : Reads .empty "cannot parse integer from empty string"
  | invalidDigit : Reads .invalidDigit "invalid digit found in string"
  | tooLarge : Reads .tooLarge "number too large to fit in target type"
  | tooSmall : Reads .tooSmall "number too small to fit in target type"
  | outOfRange (n : Int) : Reads (.outOfRange n) (toString n ++ " is not in 0..=" ++ "4294967295")

/-- What is said when reading the arguments stops: the help text, the
    version, or what is wrong, and where to find help. -/
inductive Stop.Says : Stop → String → Prop where
  | help : Says .help ("Print a directory tree, limited to a maximum depth\n\n"
      ++ "Usage: dirtree [OPTIONS] [PATH]" ++ "\n\n"
      ++ "Arguments:\n"
      ++ "  [PATH]  Directory to start from [default: .]\n\n"
      ++ "Options:\n"
      ++ "  -L, --level <MAX_LEVEL>  Maximum depth to descend (1 = direct children only) [default: "
      ++ "3" ++ "]\n"
      ++ "  -h, --help               Print help\n"
      ++ "  -V, --version            Print version\n")
  | version : Says .version "dirtree 0.1.0\n"
  | unknownArgument (arg : String) {tip : Tip} {usage : Usage} {advice line : String}
      (htip : tip.Reads advice) (husage : usage.Reads line) :
      Says (.unknownArgument arg tip usage)
        ("error: unexpected argument '" ++ Text.plain arg ++ "' found\n\n" ++ advice ++ line ++
          "\n\nFor more information, try '--help'.\n")
  | missingLevel : Says .missingLevel
      ("error: a value is required for '--level <MAX_LEVEL>' but none was supplied\n\n" ++
        "For more information, try '--help'.\n")
  | emptyPath : Says .emptyPath
      ("error: a value is required for '[PATH]' but none was supplied\n\n" ++
        "For more information, try '--help'.\n")
  | invalidLevel (value : String) {why : LevelError} {reason : String} (hwhy : why.Reads reason) :
      Says (.invalidLevel value why)
        ("error: invalid value '" ++ Text.plain value ++ "' for '--level <MAX_LEVEL>': " ++
          reason ++ "\n\nFor more information, try '--help'.\n")
  | repeatedLevel : Says .repeatedLevel
      ("error: the argument '--level <MAX_LEVEL>' cannot be used multiple times\n\n" ++
        "Usage: dirtree [OPTIONS] [PATH]\n\nFor more information, try '--help'.\n")
  | levelNotText : Says .levelNotText
      ("error: invalid UTF-8 was detected in one or more arguments\n\n" ++
        "Usage: dirtree [OPTIONS] [PATH]\n\nFor more information, try '--help'.\n")
  | unexpectedValue (value : String) {flag : Flag} {usage : Usage} {name line : String}
      (hflag : flag.Reads name) (husage : usage.Reads line) :
      Says (.unexpectedValue value flag usage)
        ("error: unexpected value '" ++ Text.plain value ++ "' for '" ++ name ++
          "' found; no more were expected\n\n" ++ line ++
          "\n\nFor more information, try '--help'.\n")

theorem Flag.reads_inUsage (flag : Flag) : flag.Reads flag.inUsage := by
  cases flag with
  | level => exact .level
  | help => exact .help
  | version => exact .version

theorem PathPart.reads_text (path : PathPart) : path.Reads path.text := by
  cases path with
  | optional => exact .optional
  | given => exact .given
  | orLevel => exact .orLevel

theorem Tip.reads_text (tip : Tip) : tip.Reads tip.text := by
  cases tip with
  | none => exact .none
  | separate arg => exact .separate arg
  | similar flag =>
      cases flag with
      | level => exact .level
      | help => exact .help
      | version => exact .version

theorem LevelError.reads_message (why : LevelError) : why.Reads why.message := by
  cases why with
  | empty => exact .empty
  | invalidDigit => exact .invalidDigit
  | tooLarge => exact .tooLarge
  | tooSmall => exact .tooSmall
  | outOfRange n =>
      have hgreatest : toString greatestLevel = "4294967295" := by cbv
      show (outOfRange n).Reads (toString n ++ " is not in 0..=" ++ toString greatestLevel)
      rw [hgreatest]
      exact .outOfRange n

/-- Words joined by blanks are the words with a blank before each, but for
    the first blank. -/
theorem join_append_eq_intercalate (words : List String) (last : String) :
    String.join (words.map fun word => " " ++ word) ++ " " ++ last =
      " " ++ " ".intercalate (words ++ [last]) := by
  induction words with
  | nil => exact congrArg (· ++ last) (String.empty_append)
  | cons word rest ih =>
      have hne := List.append_ne_nil_of_right_ne_nil rest (List.cons_ne_nil last [])
      rw [List.map_cons, String.join_cons, List.cons_append, String.intercalate_cons_of_ne_nil hne]
      simp only [String.append_assoc] at ih ⊢
      rw [ih]

theorem Usage.reads_line (usage : Usage) : usage.Reads usage.line := by
  obtain ⟨flags, path⟩ := usage
  by_cases hgeneral : Usage.mk flags path = general
  · obtain ⟨rfl, rfl⟩ := Usage.mk.inj hgeneral
    exact .general
  · have hflags : List.Forall₂ Flag.Reads flags (flags.map Flag.inUsage) :=
      List.forall₂_map_right_iff.mpr (List.forall₂_same.mpr fun flag _ => flag.reads_inUsage)
    have hreads := Reads.particular hflags path.reads_text hgeneral
    have htext : "Usage: dirtree " = "Usage: dirtree" ++ " " := rfl
    rw [htext, String.append_assoc, ← join_append_eq_intercalate, List.map_map] at hreads
    have hline : line ⟨flags, path⟩ = "Usage: dirtree" ++
        String.join (flags.map fun flag => " " ++ flag.inUsage) ++ " " ++ path.text := by
      show "Usage: dirtree" ++ (if Usage.mk flags path = general then _ else _) ++ _ ++ _ = _
      rw [if_neg hgeneral]
    rw [hline, String.append_assoc, String.append_assoc]
    rw [String.append_assoc] at hreads
    exact hreads

theorem Stop.says_message (stop : Stop) : stop.Says stop.message := by
  cases stop with
  | help =>
      have hlevel : toString defaultMaxLevel = "3" := by cbv
      have husage : Usage.general.line = "Usage: dirtree [OPTIONS] [PATH]" := rfl
      show Says .help helpText
      unfold helpText
      rw [hlevel, husage]
      exact .help
  | version => exact .version
  | unknownArgument arg tip usage =>
      have hsays := Says.unknownArgument arg tip.reads_text usage.reads_line
      rw [message, report]
      simp only [String.append_assoc] at hsays ⊢
      exact hsays
  | missingLevel => exact .missingLevel
  | emptyPath => exact .emptyPath
  | invalidLevel value why =>
      have hsays := Says.invalidLevel value why.reads_message
      rw [message, report]
      simp only [String.append_assoc] at hsays ⊢
      exact hsays
  | repeatedLevel => exact .repeatedLevel
  | levelNotText => exact .levelNotText
  | unexpectedValue value flag usage =>
      have hsays := Says.unexpectedValue value flag.reads_inUsage usage.reads_line
      rw [message, report]
      simp only [String.append_assoc] at hsays ⊢
      exact hsays

end CommandLine

end TreeSketch
