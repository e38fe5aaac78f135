import TreeSketch.Proofs.Course

/-! # Two drawings in step

    A pre-order unfolds from its front: the first item still to come is
    passed, and what is next below it is put before the others.  So two
    pre-orders keep in step for as long as the items at their fronts are
    alike, and have the same in their way.  `forall₂_upTo_flatMap` says
    this of any two, and `append_singleton_prefix_upTo` of two that agree
    on some items only: then the item after these is still the same.

    Trails unfold so (`Lister.onward_eq`): what is next below a trail is
    read off one listing, that of the directory it ends at. -/

namespace TreeSketch

/-! ## Pre-orders -/

section Unfolding

variable {α β γ δ : Type} {pre next : α → List α} {pre' next' : β → List β}
  {ob : α → Option γ} {ob' : β → Option δ}

theorem flatMap_cons_of_unfolds (hpre : ∀ a, pre a = a :: (next a).flatMap pre) (a : α)
    (rest : List α) : (a :: rest).flatMap pre = a :: (next a ++ rest).flatMap pre := by
  rw [List.flatMap_cons, hpre, List.flatMap_append, List.cons_append]

theorem mem_upTo_cons (a : α) (rest : List α) : a ∈ upTo ob (a :: rest) := by
  cases h : ob a with
  | none => rw [upTo_cons_of_clear h]; exact List.mem_cons_self
  | some c => rw [upTo_cons_of_blocked h]; exact List.mem_cons_self

/-- **IN STEP**: items alike at the front, with obstacles alike and items
    alike below them where there are none, are all that two pre-orders
    need to come to items alike throughout. -/
theorem forall₂_upTo_flatMap {R : α → β → Prop} (hpre : ∀ a, pre a = a :: (next a).flatMap pre)
    (hpre' : ∀ b, pre' b = b :: (next' b).flatMap pre') {as : List α} {bs : List β}
    (h : List.Forall₂ R as bs)
    (hstep : ∀ a ∈ upTo ob (as.flatMap pre), ∀ b ∈ upTo ob' (bs.flatMap pre'), R a b →
      (ob a = none ↔ ob' b = none) ∧ (ob a = none → List.Forall₂ R (next a) (next' b))) :
    List.Forall₂ R (upTo ob (as.flatMap pre)) (upTo ob' (bs.flatMap pre')) := by
  -- on the items still to come, of which each turn passes one
  induction hn : (as.flatMap pre).length generalizing as bs with
  | zero =>
      cases h with
      | nil => exact .nil
      | @cons a b as bs hab hrest =>
          rw [flatMap_cons_of_unfolds hpre] at hn
          cases hn
  | succ n ih =>
      cases h with
      | nil => exact .nil
      | @cons a b as bs hab hrest =>
          rw [flatMap_cons_of_unfolds hpre, flatMap_cons_of_unfolds hpre'] at hstep ⊢
          rw [flatMap_cons_of_unfolds hpre] at hn
          obtain ⟨hclear, hbelow⟩ := hstep a (mem_upTo_cons a _) b (mem_upTo_cons b _) hab
          cases ha : ob a with
          | some c =>
              have hb : ob' b ≠ none := fun hb => by
                rw [hclear.mpr hb] at ha
                cases ha
              obtain ⟨d, hb⟩ := Option.ne_none_iff_exists'.mp hb
              rw [upTo_cons_of_blocked ha, upTo_cons_of_blocked hb]
              exact .cons hab .nil
          | none =>
              have hb := hclear.mp ha
              rw [upTo_cons_of_clear ha, upTo_cons_of_clear hb] at hstep ⊢
              refine .cons hab (ih (List.rel_append (hbelow ha) hrest) ?_ (Nat.succ.inj hn))
              intro a' ha' b' hb'
              exact hstep a' (List.mem_cons_of_mem _ ha') b' (List.mem_cons_of_mem _ hb')

/-- What begins with an item goes on past it only if the way is clear. -/
theorem cons_prefix_upTo_cons {a first : α} {passed rest : List α} :
    first :: passed <+: upTo ob (a :: rest) ↔
      first = a ∧ (passed = [] ∨ ob a = none ∧ passed <+: upTo ob rest) := by
  cases h : ob a with
  | some c =>
      rw [upTo_cons_of_blocked h, List.cons_prefix_cons, List.prefix_nil]
      simp
  | none =>
      rw [upTo_cons_of_clear h, List.cons_prefix_cons]
      constructor
      · rintro ⟨rfl, hpassed⟩
        exact ⟨rfl, Or.inr ⟨rfl, hpassed⟩⟩
      · rintro ⟨rfl, rfl | ⟨-, hpassed⟩⟩
        · exact ⟨rfl, List.nil_prefix⟩
        · exact ⟨rfl, hpassed⟩

/-- Two pre-orders that agree on some items passed pass the same one after
    them. -/
theorem append_singleton_prefix_upTo {preFirst preSecond nextFirst nextSecond : α → List α}
    {first second : α → Option γ}
    (hfirst : ∀ a, preFirst a = a :: (nextFirst a).flatMap preFirst)
    (hsecond : ∀ a, preSecond a = a :: (nextSecond a).flatMap preSecond) {passed : List α} {last : α} :
    ∀ {items : List α}, passed ++ [last] <+: upTo first (items.flatMap preFirst) →
      (∀ a ∈ passed, first a = second a ∧ nextFirst a = nextSecond a) →
      passed ++ [last] <+: upTo second (items.flatMap preSecond) := by
  induction passed with
  | nil =>
      intro items h _
      cases items with
      | nil => exact absurd (List.prefix_nil.mp h) (List.cons_ne_nil _ _)
      | cons a rest =>
          rw [flatMap_cons_of_unfolds hfirst] at h
          rw [flatMap_cons_of_unfolds hsecond]
          exact cons_prefix_upTo_cons.mpr ⟨(cons_prefix_upTo_cons.mp h).1, Or.inl rfl⟩
  | cons a passed ih =>
      intro items h hagree
      cases items with
      | nil => exact absurd (List.prefix_nil.mp h) (List.cons_ne_nil _ _)
      | cons a' rest =>
          obtain ⟨⟨hclear, hnext⟩, hpassed⟩ := List.forall_mem_cons.mp hagree
          rw [flatMap_cons_of_unfolds hfirst] at h
          rw [flatMap_cons_of_unfolds hsecond]
          obtain ⟨rfl, hnil | ⟨ha, hrest⟩⟩ := cons_prefix_upTo_cons.mp h
          · exact absurd hnil (by simp)
          · refine cons_prefix_upTo_cons.mpr ⟨rfl, Or.inr ⟨hclear ▸ ha, ?_⟩⟩
            rw [hnext] at hrest
            exact ih hrest hpassed

end Unfolding

/-! ## Trails unfold -/

namespace Lister

/-- The trails one spot longer than one that a walk goes into. -/
def next (list : Lister) (depth : Nat) (root : Path) (trail : Trail) : List Trail :=
  if trail.isTried depth then
    match list (trail.target root) with
    | .error _ => []
    | .ok listing => (Spot.all listing.entries).map fun spot => trail ++ [spot]
  else []

/-- A trail and those that go on from it, in pre-order. -/
def onward (list : Lister) (depth : Nat) (root : Path) (trail : Trail) : List Trail :=
  trail :: if trail.isTried depth then
      (list.trails (depth - trail.length) (trail.target root)).map (trail ++ ·)
    else []

/-- The whole pre-order goes on from the empty trail. -/
theorem onward_nil (list : Lister) (depth : Nat) (root : Path) :
    list.onward depth root [] = [] :: list.trails depth root := by
  cases depth with
  | zero => rfl
  | succ depth =>
      show [] :: (list.trails (depth + 1) root).map ([] ++ ·) = _
      simp

/-- **UNFOLDING**: what goes on from a trail goes on from those one spot
    longer. -/
theorem onward_eq (list : Lister) (depth : Nat) (root : Path) (trail : Trail) :
    list.onward depth root trail =
      trail :: (list.next depth root trail).flatMap (list.onward depth root) := by
  rw [onward, next]
  by_cases htried : trail.isTried depth = true
  · rw [if_pos htried, if_pos htried]
    obtain ⟨-, hlen⟩ := Bool.and_eq_true_iff.mp htried
    obtain ⟨left, hleft⟩ := Nat.exists_eq_add_of_lt (of_decide_eq_true hlen)
    have hless : depth - trail.length = left + 1 := by omega
    cases hlist : list (trail.target root) with
    | error e => rw [trails_of_error hlist]; rfl
    | ok listing =>
        rw [hless, trails_of_ok hlist, List.map_flatMap, List.flatMap_map]
        refine congrArg (List.cons trail) (List.flatMap_congr fun spot _ => ?_)
        rw [onward, Trail.through, Trail.target_concat, Trail.isTried, Trail.isDirectory_concat,
          List.map_cons, List.length_append, List.length_singleton]
        by_cases hdir : spot.entry.isDirectory = true
        · -- with no level left below, nothing goes on from the spot either way
          rw [if_pos hdir, hdir, Bool.true_and, List.map_map]
          by_cases hgoes : trail.length + 1 < depth
          · have hbelow : depth - (trail.length + 1) = left := by omega
            rw [decide_eq_true hgoes, if_pos rfl, hbelow]
            simp
          · have hend : left = 0 := by omega
            rw [decide_eq_false hgoes, hend]
            rfl
        · simp [hdir]
  · rw [if_neg htried, if_neg htried, List.flatMap_nil]

/-- The trails that a drawing passes, the root's empty one first. -/
theorem nil_cons_drawn_eq (list : Lister) (depth : Nat) (root : Path) :
    [] :: list.drawn depth root =
      upTo (Trail.obstacle list root depth) ([[]].flatMap (list.onward depth root)) := by
  rw [List.flatMap_singleton, onward_nil, upTo_nil_cons]

end Lister

end TreeSketch
