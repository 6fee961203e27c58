import Mathlib.Data.List.Sort
import Mathlib.Order.RelClasses

/-!
# Reading a Collection Page by Page

A reader asks for a number of items from a cursor on and is told the key of the first item it
did not get, which is the cursor of its next request. The collection is in the order of its
keys, and may be another one at each request.

## Main results

- `walk_pairwise`: the items of all pages together are in the order of their keys, so none is
  read twice.
- `exists_of_walk`: a key that every version of the collection holds is read.
- `walk_eq`: from a collection that stays as it is, the reader gets all of it.
-/

namespace GenesisEthermint.Foundation

variable {α κ : Type}

/-! ## §1 Items in the order of their keys -/

section Order

variable {key : α → κ} {before : κ → κ → Prop} {items : List α} {limit : ℕ} {x y : α}

/-- The items are in the order of their keys. -/
def Ordered (key : α → κ) (before : κ → κ → Prop) (items : List α) : Prop :=
  items.Pairwise fun x y => before (key x) (key y)

/-- A page is before what it leaves. -/
theorem Ordered.before_of_take_drop (h : Ordered key before items) (hx : x ∈ items.take limit)
    (hy : y ∈ items.drop limit) : before (key x) (key y) := by
  rw [← List.take_append_drop limit items] at h
  exact (List.pairwise_append.mp h).2.2 x hx y hy

variable [IsStrictTotalOrder κ before]

/-- What is not before a key is not before what that key is not before. -/
theorem not_before_trans {a b c : κ} (hab : ¬ before b a) (hbc : ¬ before c b) :
    ¬ before c a := by
  intro hca
  rcases trichotomous_of before b c with hlt | rfl | hlt
  · exact hab (trans_of before hlt hca)
  · exact hab hca
  · exact hbc hlt

theorem before_of_before_of_not {a b c : κ} (hab : before a b) (hbc : ¬ before c b) :
    before a c := by
  rcases trichotomous_of before b c with hlt | rfl | hlt
  · exact trans_of before hab hlt
  · exact hab
  · exact absurd hlt hbc

/-- Ordered items are determined by which they are. -/
theorem Ordered.eq_of_mem_iff {others : List α} (h : Ordered key before items)
    (h' : Ordered key before others) (hmem : ∀ x, x ∈ items ↔ x ∈ others) : items = others := by
  have hirrefl : Std.Irrefl fun x y => before (key x) (key y) := ⟨fun _ => irrefl_of before _⟩
  have hantisymm : Std.Antisymm fun x y => before (key x) (key y) :=
    ⟨fun _ _ hxy hyx => absurd hyx (asymm_of before hxy)⟩
  exact List.Pairwise.eq_of_mem_iff h h' hmem

end Order

/-! ## §2 Walks -/

variable (key : α → κ) (before : κ → κ → Prop) [DecidableRel before]

/-- The items from the cursor on; without a cursor, all of them. -/
def visible (cursor : Option κ) (items : List α) : List α :=
  items.filter fun x => ∀ c ∈ cursor, ¬ before (key x) c

/-- Reads versions of the collection, each up to its own number of items: what was read when
nothing was left, and nothing where the versions end before that. -/
def walk (cursor : Option κ) : List (List α × ℕ) → Option (List α)
  | [] => none
  | (items, limit) :: rest =>
    let left := visible key before cursor items
    match left.drop limit with
    | [] => some (left.take limit)
    | x :: _ => (walk (some (key x)) rest).map (left.take limit ++ ·)

variable {key before} {cursor : Option κ} {items : List α} {limit : ℕ}
  {versions : List (List α × ℕ)} {out : List α} {x : α} {k : κ}

theorem mem_visible_iff :
    x ∈ visible key before cursor items ↔ x ∈ items ∧ ∀ c ∈ cursor, ¬ before (key x) c := by
  rw [visible, List.mem_filter, decide_eq_true_iff]

theorem walk_last (h : (visible key before cursor items).drop limit = []) :
    walk key before cursor ((items, limit) :: versions) =
      some ((visible key before cursor items).take limit) := by
  simp only [walk, h]

theorem walk_more {after : List α} (h : (visible key before cursor items).drop limit = x :: after) :
    walk key before cursor ((items, limit) :: versions) =
      (walk key before (some (key x)) versions).map
        ((visible key before cursor items).take limit ++ ·) := by
  simp only [walk, h]

/-- What a walk is: its last page, or one page and the walk from its next key. -/
theorem walk_cons_cases (h : walk key before cursor ((items, limit) :: versions) = some out) :
    ((visible key before cursor items).drop limit = [] ∧
      out = (visible key before cursor items).take limit) ∨
    ∃ x after rest, (visible key before cursor items).drop limit = x :: after ∧
      walk key before (some (key x)) versions = some rest ∧
      out = (visible key before cursor items).take limit ++ rest := by
  cases hdrop : (visible key before cursor items).drop limit with
  | nil =>
    rw [walk_last hdrop] at h
    exact .inl ⟨rfl, (Option.some.inj h).symm⟩
  | cons x after =>
    rw [walk_more hdrop] at h
    obtain ⟨rest, hrest, hout⟩ := Option.map_eq_some_iff.mp h
    exact .inr ⟨x, after, rest, rfl, hrest, hout.symm⟩

/-- The items a page leaves, from the next key on. -/
theorem mem_visible_of_drop {after : List α}
    (h : (visible key before cursor items).drop limit = x :: after) {y : α}
    (hy : y ∈ x :: after) : y ∈ visible key before cursor items := by
  rw [← h] at hy
  exact List.mem_of_mem_drop hy

theorem Ordered.visible (h : Ordered key before items) :
    Ordered key before (visible key before cursor items) :=
  h.filter _

/-- Every item was in one of the versions. -/
theorem exists_version_of_mem_walk (h : walk key before cursor versions = some out)
    (hx : x ∈ out) : ∃ version ∈ versions, x ∈ version.1 := by
  induction versions generalizing cursor out with
  | nil => cases h
  | cons version versions ih =>
    obtain ⟨items, limit⟩ := version
    have htake : x ∈ (visible key before cursor items).take limit →
        ∃ version ∈ (items, limit) :: versions, x ∈ version.1 := fun hx =>
      ⟨_, List.mem_cons_self, (mem_visible_iff.mp (List.mem_of_mem_take hx)).1⟩
    rcases walk_cons_cases h with ⟨-, rfl⟩ | ⟨y, after, rest, hdrop, hrest, rfl⟩
    · exact htake hx
    · rcases List.mem_append.mp hx with hx | hx
      · exact htake hx
      · obtain ⟨version, hversion, hmem⟩ := ih hrest hx
        exact ⟨version, List.mem_cons_of_mem _ hversion, hmem⟩

variable [IsStrictTotalOrder κ before]

/-- A walk reads from its cursor on. -/
theorem not_before_of_mem_walk (h : walk key before cursor versions = some out) (hx : x ∈ out) :
    ∀ c ∈ cursor, ¬ before (key x) c := by
  induction versions generalizing cursor out with
  | nil => cases h
  | cons version versions ih =>
    obtain ⟨items, limit⟩ := version
    rcases walk_cons_cases h with ⟨-, rfl⟩ | ⟨y, after, rest, hdrop, hrest, rfl⟩
    · exact (mem_visible_iff.mp (List.mem_of_mem_take hx)).2
    · rcases List.mem_append.mp hx with hx | hx
      · exact (mem_visible_iff.mp (List.mem_of_mem_take hx)).2
      -- what comes later is not before the next key, which is not before the cursor
      · intro c hc
        have hy := mem_visible_iff.mp (mem_visible_of_drop hdrop List.mem_cons_self)
        exact not_before_trans (hy.2 c hc) (ih hrest hx (key y) rfl)

/-- **All pages together are in the order of their keys**, so no key is read twice. -/
theorem walk_pairwise (hord : ∀ version ∈ versions, Ordered key before version.1)
    (h : walk key before cursor versions = some out) : Ordered key before out := by
  induction versions generalizing cursor out with
  | nil => cases h
  | cons version versions ih =>
    obtain ⟨items, limit⟩ := version
    have hvis := @Ordered.visible _ _ _ _ _ cursor _ (hord _ List.mem_cons_self)
    have htake : Ordered key before ((Foundation.visible key before cursor items).take limit) :=
      hvis.sublist (List.take_sublist _ _)
    rcases walk_cons_cases h with ⟨-, rfl⟩ | ⟨y, after, rest, hdrop, hrest, rfl⟩
    · exact htake
    · apply List.pairwise_append.mpr
      refine ⟨htake, ih (fun v hv => hord v (List.mem_cons_of_mem _ hv)) hrest, ?_⟩
      intro x hx z hz
      have hxy : before (key x) (key y) :=
        hvis.before_of_take_drop hx (hdrop ▸ List.mem_cons_self)
      exact before_of_before_of_not hxy (not_before_of_mem_walk hrest hz (key y) rfl)

/-- **A key that every version holds is read.** -/
theorem exists_of_walk (hord : ∀ version ∈ versions, Ordered key before version.1)
    (h : walk key before cursor versions = some out)
    (hstays : ∀ version ∈ versions, ∃ x ∈ version.1, key x = k)
    (hcursor : ∀ c ∈ cursor, ¬ before k c) : ∃ x ∈ out, key x = k := by
  induction versions generalizing cursor out with
  | nil => cases h
  | cons version versions ih =>
    obtain ⟨items, limit⟩ := version
    obtain ⟨x, hx, rfl⟩ := hstays _ List.mem_cons_self
    have hvis := mem_visible_iff.mpr ⟨hx, hcursor⟩
    rw [← List.take_append_drop limit (visible key before cursor items), List.mem_append] at hvis
    rcases walk_cons_cases h with ⟨hdrop, rfl⟩ | ⟨y, after, rest, hdrop, hrest, rfl⟩
    · rw [hdrop] at hvis
      exact ⟨x, hvis.resolve_right List.not_mem_nil, rfl⟩
    · rcases hvis with hvis | hvis
      · exact ⟨x, List.mem_append_left _ hvis, rfl⟩
      -- the page ends before the key: the next key is not behind it
      · have hnext : ¬ before (key x) (key y) := by
          have hpair := (@Ordered.visible _ _ _ _ _ cursor _ (hord _ List.mem_cons_self)).sublist
            (List.drop_sublist limit _)
          rw [hdrop] at hvis hpair
          rcases List.mem_cons.mp hvis with rfl | hvis
          · exact irrefl_of before _
          · exact asymm_of before ((List.pairwise_cons.mp hpair).1 x hvis)
        obtain ⟨z, hz, hkey⟩ := ih (fun v hv => hord v (List.mem_cons_of_mem _ hv)) hrest
          (fun v hv => hstays v (List.mem_cons_of_mem _ hv))
          (fun c hc => Option.some.inj hc ▸ hnext)
        exact ⟨z, List.mem_append_right _ hz, hkey⟩

/-- The next request sees what the page left. -/
theorem Ordered.visible_next (h : Ordered key before items) {after : List α}
    (hdrop : (Foundation.visible key before cursor items).drop limit = x :: after) :
    Foundation.visible key before (some (key x)) items = x :: after := by
  have hvis := @Ordered.visible _ _ _ before _ cursor _ h
  have hafter : Ordered key before (x :: after) := hdrop ▸ hvis.sublist (List.drop_sublist _ _)
  have hx := mem_visible_iff.mp (mem_visible_of_drop hdrop List.mem_cons_self)
  apply h.visible.eq_of_mem_iff hafter
  intro y
  rw [mem_visible_iff]
  constructor
  · rintro ⟨hy, hnot⟩
    have hxy : ¬ before (key y) (key x) := hnot _ rfl
    -- the page before did not end with it: it was before the next key
    have hsplit := mem_visible_iff.mpr ⟨hy, fun c hc => not_before_trans (hx.2 c hc) hxy⟩
    rw [← List.take_append_drop limit (Foundation.visible key before cursor items),
      List.mem_append, hdrop] at hsplit
    rcases hsplit with htake | hmem
    · exact absurd (hvis.before_of_take_drop htake (hdrop ▸ List.mem_cons_self)) hxy
    · exact hmem
  · intro hy
    refine ⟨(mem_visible_iff.mp (mem_visible_of_drop hdrop hy)).1, ?_⟩
    intro c hc
    cases hc
    rcases List.mem_cons.mp hy with rfl | hmem
    · exact irrefl_of before _
    · exact asymm_of before ((List.pairwise_cons.mp hafter).1 y hmem)

/-- **A walk through a collection that stays as it is** reads all of it: it needs at most one
request more than there are items. -/
theorem walk_eq (h : Ordered key before items)
    (hversions : ∀ version ∈ versions, version.1 = items ∧ 0 < version.2)
    (hlength : (visible key before cursor items).length < versions.length) :
    walk key before cursor versions = some (visible key before cursor items) := by
  induction versions generalizing cursor with
  | nil => exact absurd hlength (Nat.not_lt_zero _)
  | cons version versions ih =>
    obtain ⟨items', limit⟩ := version
    obtain ⟨rfl, hlimit⟩ := hversions _ List.mem_cons_self
    have hsplit := List.take_append_drop limit (visible key before cursor items')
    cases hdrop : (visible key before cursor items').drop limit with
    | nil =>
      rw [hdrop, List.append_nil] at hsplit
      rw [walk_last hdrop, hsplit]
    | cons x after =>
      have hnext := h.visible_next hdrop
      rw [walk_more hdrop, ih (fun v hv => hversions v (List.mem_cons_of_mem _ hv)), hnext,
        Option.map_some, ← hdrop, hsplit]
      -- the page was not empty
      rw [hnext, ← hdrop, List.length_drop]
      replace hlength : (visible key before cursor items').length < versions.length + 1 := hlength
      replace hlimit : 0 < limit := hlimit
      have hpos : 0 < (visible key before cursor items').length :=
        List.length_pos_of_mem (mem_visible_of_drop hdrop List.mem_cons_self)
      omega

end GenesisEthermint.Foundation
