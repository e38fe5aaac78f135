import Mathlib.Data.List.Forall2

/-! # Lists

    What the other modules need of lists in general and the library does
    not have: of an item in the middle of a list, of keys looked up, of
    lists that are flattened, and of lists that go with each other item by
    item. -/

namespace TreeSketch

section

variable {α β γ : Type}

/-- Either all items have a property, or there is a first that has not. -/
theorem forall_or_first_not (p : α → Prop) (items : List α) :
    (∀ item ∈ items, p item) ∨
      ∃ before item after, items = before ++ item :: after ∧ (∀ earlier ∈ before, p earlier) ∧
        ¬ p item := by
  induction items with
  | nil => exact Or.inl (List.forall_mem_nil _)
  | cons item rest ih =>
      by_cases hitem : p item
      · rcases ih with hall | ⟨before, next, after, rfl, hbefore, hnext⟩
        · exact Or.inl (List.forall_mem_cons.mpr ⟨hitem, hall⟩)
        · exact Or.inr ⟨item :: before, next, after, rfl,
            List.forall_mem_cons.mpr ⟨hitem, hbefore⟩, hnext⟩
      · exact Or.inr ⟨[], item, rest, rfl, List.forall_mem_nil _, hitem⟩

/-- An item of two lists, one after the other, stands in the second or in the
    first. -/
theorem split_of_append_eq {first second before after : List α} {item : α}
    (h : first ++ second = before ++ item :: after) :
    (∃ skipped, before = first ++ skipped ∧ second = skipped ++ item :: after) ∨
      ∃ skipped, first = before ++ item :: skipped ∧ after = skipped ++ second := by
  rcases List.append_eq_append_iff.mp h with hsecond | ⟨skipped, hfirst, hafter⟩
  · exact Or.inl hsecond
  · cases skipped with
    | nil =>
        rw [List.append_nil] at hfirst
        exact Or.inl ⟨[], by rw [hfirst, List.append_nil], hafter.symm⟩
    | cons own skipped =>
        obtain ⟨rfl, hrest⟩ := List.cons.inj hafter
        exact Or.inr ⟨skipped, hfirst, hrest⟩

/-- Of distinct keys each finds the same in any order. -/
theorem lookup_eq_of_perm [BEq α] [LawfulBEq α] {items items' : List (α × β)}
    (h : items.Perm items') (hdistinct : (items.map Prod.fst).Nodup) (key : α) :
    items.lookup key = items'.lookup key := by
  induction h with
  | nil => rfl
  | cons item _ ih =>
      obtain ⟨-, hrest⟩ := List.nodup_cons.mp hdistinct
      rw [List.lookup_cons, List.lookup_cons, ih hrest]
  | swap first second rest =>
      obtain ⟨hsecond, -⟩ := List.nodup_cons.mp hdistinct
      have hne : second.1 ≠ first.1 := fun heq => hsecond (heq ▸ List.mem_cons_self)
      rw [List.lookup_cons, List.lookup_cons, List.lookup_cons, List.lookup_cons]
      by_cases hkey : key = second.1
      · have hother : (key == first.1) = false := beq_false_of_ne fun heq => hne (hkey ▸ heq)
        rw [hother]
      · have hother : (key == second.1) = false := beq_false_of_ne hkey
        rw [hother]
  | trans hleft _ ihleft ihright =>
      exact (ihleft hdistinct).trans (ihright ((hleft.map Prod.fst).nodup_iff.mp hdistinct))

/-! ## Flattened lists -/

theorem flatMap_elim_eq (f : α → Option β) (g : β → List γ) (items : List α) :
    items.flatMap (fun a => (f a).elim [] g) = (items.filterMap f).flatMap g := by
  induction items with
  | nil => rfl
  | cons a rest ih =>
      rw [List.flatMap_cons, ih]
      cases ha : f a with
      | none => rw [List.filterMap_cons_none ha]; rfl
      | some b => rw [List.filterMap_cons_some ha, List.flatMap_cons]; rfl

theorem countP_flatMap_of_forall {f : α → List β} {p : β → Bool} {q : α → Bool} {items : List α}
    (h : ∀ a ∈ items, (f a).countP p = if q a then 1 else 0) :
    (items.flatMap f).countP p = items.countP q := by
  induction items with
  | nil => rfl
  | cons a rest ih =>
      obtain ⟨ha, hrest⟩ := List.forall_mem_cons.mp h
      rw [List.flatMap_cons, List.countP_append, ha, ih hrest, List.countP_cons, Nat.add_comm]

/-! ## Lists item by item -/

variable {R : α → β → Prop} {as : List α} {bs : List β}

theorem exists_left_of_forall₂ (h : List.Forall₂ R as bs) {b : β} (hb : b ∈ bs) :
    ∃ a, R a b := by
  induction h with
  | nil => cases hb
  | cons hhead _ ih =>
      rcases List.mem_cons.mp hb with rfl | hb
      · exact ⟨_, hhead⟩
      · exact ih hb

/-- Lists that go with each other end with items that do. -/
theorem exists_last_of_forall₂ (h : List.Forall₂ R as bs) (hne : as ≠ []) :
    ∃ before last before' last', as = before ++ [last] ∧ bs = before' ++ [last'] ∧
      R last last' := by
  induction h with
  | nil => exact absurd rfl hne
  | @cons a b as bs hab hrest ih =>
      cases hrest with
      | nil => exact ⟨[], a, [], b, rfl, rfl, hab⟩
      | cons _ _ =>
          obtain ⟨before, last, before', last', has, hbs, hlast⟩ := ih (List.cons_ne_nil _ _)
          exact ⟨a :: before, last, b :: before', last', congrArg (List.cons a) has,
            congrArg (List.cons b) hbs, hlast⟩

theorem countP_eq_of_forall₂ (h : List.Forall₂ R as bs) {p : α → Bool} {q : β → Bool}
    (hpq : ∀ a b, R a b → p a = q b) : as.countP p = bs.countP q := by
  rw [List.countP_eq_length_filter, List.countP_eq_length_filter]
  exact (List.rel_filter (fun a b hab => Bool.eq_iff_iff.mp (hpq a b hab)) h).length_eq

end

end TreeSketch
