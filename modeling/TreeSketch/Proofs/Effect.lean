import Mathlib
import TreeSketch.Walk

/-! # Effects — what a walk does, whatever its sink

    A walk writes in many small writes, and a sink may refuse any of them.
    Two writes in a row are one write of both texts (`Sink.write_append`),
    so a walk is as good as a single write: if the sink takes all of it,
    the walk ends as it does on any sink that takes all, and if not, the
    walk stops with the sink's failure and holds no more than the sink
    took.  `Walk.HasEffect` says this of one walk; each step of a walk has
    an effect, and sequencing keeps it (`Walk.HasEffect.bind`,
    `Walk.HasEffect.bind_of_error`). -/

namespace TreeSketch

namespace Sink

/-- An empty write changes nothing. -/
theorem write_nil (sink : Sink) : sink.write [] = (sink, none) := by
  cases hroom : sink.room with
  | none => rw [write_of_unlimited hroom, push_nil]
  | some room =>
      have hfits : ([] : Bytes).length ≤ room := Nat.zero_le room
      rw [write_of_fits hroom hfits, push_nil, List.length_nil, Nat.sub_zero, ← hroom]

/-- A write after one that succeeded is one write of both. -/
theorem write_append {sink next : Sink} {a : Bytes} (h : sink.write a = (next, none))
    (b : Bytes) : sink.write (a ++ b) = next.write b := by
  cases hroom : sink.room with
  | none =>
      rw [write_of_unlimited hroom] at h
      obtain ⟨rfl, -⟩ := Prod.mk.inj h
      have hnext : (sink.push a).room = none := hroom
      rw [write_of_unlimited hroom, write_of_unlimited hnext, push_push]
  | some room =>
      by_cases hfits : a.length ≤ room
      · rw [write_of_fits hroom hfits] at h
        obtain ⟨rfl, -⟩ := Prod.mk.inj h
        by_cases hboth : (a ++ b).length ≤ room
        · have hb : b.length ≤ room - a.length := by
            rw [List.length_append] at hboth
            omega
          rw [write_of_fits hroom hboth, write_of_fits rfl hb, List.length_append, ← Nat.sub_sub,
            ← push_push]
          rfl
        · have hb : room - a.length < b.length := by
            rw [List.length_append] at hboth
            omega
          rw [write_of_exceeds hroom (Nat.not_le.mp hboth), write_of_exceeds rfl hb,
            List.take_append, List.take_of_length_le hfits, ← push_push]
          rfl
      · rw [write_of_exceeds hroom (Nat.not_le.mp hfits)] at h
        exact nomatch congrArg Prod.snd h

/-- What follows a write that failed is not looked at. -/
theorem write_append_of_failed {sink next : Sink} {a : Bytes} {cause : Cause}
    (h : sink.write a = (next, some cause)) (b : Bytes) :
    sink.write (a ++ b) = (next, some cause) := by
  cases hroom : sink.room with
  | none =>
      rw [write_of_unlimited hroom] at h
      exact nomatch congrArg Prod.snd h
  | some room =>
      by_cases hfits : a.length ≤ room
      · rw [write_of_fits hroom hfits] at h
        exact nomatch congrArg Prod.snd h
      · have hexceeds := Nat.not_le.mp hfits
        have hboth : room < (a ++ b).length := by
          rw [List.length_append]
          omega
        rw [write_of_exceeds hroom hboth,
          List.take_append_of_le_length (Nat.le_of_lt hexceeds), ← h, write_of_exceeds hroom hexceeds]

end Sink

/-- What a walk comes to where its sink takes everything: the bytes it
    writes, the counts it leaves, the events it tells, and its result. -/
structure Effect (α : Type) where
  bytes : Bytes
  stats : Stats
  events : List Event
  result : Except Error α

/-- How a walk with this effect ends, having come so far. -/
def Effect.ending {α : Type} (effect : Effect α) (progress : Progress Sink) :
    EStateM.Result Error (Progress Sink) α :=
  match effect.result with
  | .ok a => .ok a progress
  | .error e => .error e progress

namespace Walk

variable {α β : Type}

/-- That a walk from some counts has an effect, however much its sink
    takes. -/
structure HasEffect (walk : Walk Sink α) (stats : Stats) (effect : Effect α) : Prop where
  fits : ∀ {sink next : Sink}, sink.write effect.bytes = (next, none) →
    ∀ newest, walk.run ⟨sink, stats, newest⟩ =
      effect.ending ⟨next, effect.stats, effect.events.reverse ++ newest⟩
  fails : ∀ {sink next : Sink} {cause : Cause}, sink.write effect.bytes = (next, some cause) →
    ∀ newest, ∃ reached told, told <+: effect.events ∧
      walk.run ⟨sink, stats, newest⟩ = .error (.io cause) ⟨next, reached, told.reverse ++ newest⟩

/-- A step that writes nothing has the effect it has on one progress. -/
theorem hasEffect_of_silent {walk : Walk Sink α} {stats after : Stats} {events : List Event}
    {result : Except Error α}
    (h : ∀ sink newest, walk.run ⟨sink, stats, newest⟩ =
      Effect.ending ⟨[], after, events, result⟩ ⟨sink, after, events.reverse ++ newest⟩) :
    walk.HasEffect stats ⟨[], after, events, result⟩ where
  fits := by
    intro sink next hwrite newest
    rw [Sink.write_nil] at hwrite
    obtain ⟨rfl, -⟩ := Prod.mk.inj hwrite
    exact h sink newest
  fails := by
    intro sink next cause hwrite newest
    rw [Sink.write_nil] at hwrite
    exact nomatch congrArg Prod.snd hwrite

theorem hasEffect_pure (a : α) (stats : Stats) :
    (pure a : Walk Sink α).HasEffect stats ⟨[], stats, [], .ok a⟩ :=
  hasEffect_of_silent fun _ _ => rfl

theorem hasEffect_throw (e : Error) (stats : Stats) :
    (throw e : Walk Sink α).HasEffect stats ⟨[], stats, [], .error e⟩ :=
  hasEffect_of_silent fun _ _ => rfl

theorem hasEffect_record (events : List Event) (stats : Stats) :
    (record events).HasEffect stats ⟨[], stats, events, .ok ()⟩ := by
  refine hasEffect_of_silent ?_
  intro sink newest
  show EStateM.Result.ok () (Progress.record ⟨sink, stats, newest⟩ events) = _
  rw [Progress.record, List.reverseAux_eq]
  rfl

theorem hasEffect_count (entry : Entry) (stats : Stats) :
    (count entry).HasEffect stats ⟨[], stats.count entry.isDirectory, [], .ok ()⟩ :=
  hasEffect_of_silent fun _ _ => rfl

theorem hasEffect_write (text : String) (stats : Stats) :
    (write text).HasEffect stats ⟨Text.encode text, stats, [], .ok ()⟩ where
  fits := by
    intro sink next hwrite newest
    have hwriter : Writer.write sink (Text.encode text) = (next, none) := hwrite
    rw [EStateM.run, write, hwriter]
    rfl
  fails := by
    intro sink next cause hwrite newest
    have hwriter : Writer.write sink (Text.encode text) = (next, some cause) := hwrite
    refine ⟨stats, [], List.prefix_rfl, ?_⟩
    rw [EStateM.run, write, hwriter]
    rfl

/-- Effects in sequence: the texts and the events of both. -/
theorem HasEffect.bind {walk : Walk Sink α} {after : α → Walk Sink β} {stats between : Stats}
    {bytes : Bytes} {events : List Event} {a : α} {effect : Effect β}
    (hwalk : walk.HasEffect stats ⟨bytes, between, events, .ok a⟩)
    (hafter : (after a).HasEffect between effect) :
    (walk >>= after).HasEffect stats
      ⟨bytes ++ effect.bytes, effect.stats, events ++ effect.events, effect.result⟩ where
  fits := by
    intro sink next hwrite newest
    cases hfirst : sink.write bytes with
    | mk middle failure =>
        cases failure with
        | some cause =>
            -- a part that does not fit cannot be the start of a text that does
            rw [Sink.write_append_of_failed hfirst] at hwrite
            exact nomatch congrArg Prod.snd hwrite
        | none =>
            rw [Sink.write_append hfirst] at hwrite
            rw [EStateM.run_bind, hwalk.fits hfirst]
            show (after a).run ⟨middle, between, events.reverse ++ newest⟩ = _
            rw [hafter.fits hwrite, List.reverse_append, List.append_assoc]
            rfl
  fails := by
    intro sink next cause hwrite newest
    cases hfirst : sink.write bytes with
    | mk middle failure =>
        cases failure with
        | some cause' =>
            -- the sink is full within the first walk, and the second never starts
            rw [Sink.write_append_of_failed hfirst] at hwrite
            rw [hwrite] at hfirst
            obtain ⟨reached, told, htold, hrun⟩ := hwalk.fails hfirst newest
            refine ⟨reached, told, htold.trans (List.prefix_append _ _), ?_⟩
            rw [EStateM.run_bind, hrun]
        | none =>
            -- the first walk fits, so all its events are told before the sink is full
            rw [Sink.write_append hfirst] at hwrite
            obtain ⟨reached, told, htold, hrun⟩ := hafter.fails hwrite (events.reverse ++ newest)
            refine ⟨reached, events ++ told, (List.prefix_append_right_inj events).mpr htold, ?_⟩
            rw [EStateM.run_bind, hwalk.fits hfirst]
            show (after a).run ⟨middle, between, events.reverse ++ newest⟩ = _
            rw [hrun, List.reverse_append, List.append_assoc]

theorem HasEffect.seq {walk : Walk Sink α} {next : Walk Sink β} {stats between : Stats}
    {bytes : Bytes} {events : List Event} {a : α} {effect : Effect β}
    (hwalk : walk.HasEffect stats ⟨bytes, between, events, .ok a⟩)
    (hnext : next.HasEffect between effect) :
    (walk >>= fun _ => next).HasEffect stats
      ⟨bytes ++ effect.bytes, effect.stats, events ++ effect.events, effect.result⟩ :=
  hwalk.bind hnext

/-- Nothing follows a walk that stops. -/
theorem HasEffect.bind_of_error {walk : Walk Sink α} {after : α → Walk Sink β} {stats between : Stats}
    {bytes : Bytes} {events : List Event} {e : Error}
    (hwalk : walk.HasEffect stats ⟨bytes, between, events, .error e⟩) :
    (walk >>= after).HasEffect stats ⟨bytes, between, events, .error e⟩ where
  fits := by
    intro sink next hwrite newest
    rw [EStateM.run_bind, hwalk.fits hwrite]
    rfl
  fails := by
    intro sink next cause hwrite newest
    obtain ⟨reached, told, htold, hrun⟩ := hwalk.fails hwrite newest
    refine ⟨reached, told, htold, ?_⟩
    rw [EStateM.run_bind, hrun]

end Walk

end TreeSketch
