import GenesisEthermint.Types.Text
import Mathlib.Data.List.Nodup

/-!
# Coin Metadata

The bank's description of a denomination. The module stores it on registration and compares a
stored one with a proposed one, so both the bank's own validation and the module's comparison
are here.
-/

namespace GenesisEthermint.Types

/-- `banktypes.DenomUnit`. -/
structure DenomUnit where
  denom : String
  exponent : ℕ
  aliases : List String
  deriving DecidableEq

/-- `banktypes.Metadata`. -/
structure Metadata where
  description : String
  denomUnits : List DenomUnit
  base : String
  display : String
  name : String
  symbol : String
  deriving DecidableEq

/-- An error wrapped with `%w` after a prefix. -/
private def prefixed (msg : String) : Except GoError Unit → Except GoError Unit
  | .ok () => .ok ()
  | .error e => .error (.errorf (msg ++ ": " ++ e.error))

/-- The alias loop of `DenomUnit.Validate`. -/
def validateAliases (denom : String) (seen : List String) : List String → Except GoError Unit
  | [] => .ok ()
  | a :: rest => do
    rejectIf (a ∈ seen) (.errorf ("duplicate denomination unit alias " ++ a))
    rejectIf (isBlank a) (.errorf ("alias for denom unit " ++ denom ++ " cannot be blank"))
    validateAliases denom (a :: seen) rest

/-- `DenomUnit.Validate`. -/
def DenomUnit.validate (u : DenomUnit) : Except GoError Unit := do
  prefixed "invalid denom unit" (validateDenom u.denom)
  validateAliases u.denom [] u.aliases

/-- What the loop over the denomination units has seen so far. -/
structure UnitScan where
  first : Bool
  currentExponent : ℕ
  seenUnits : List String
  hasDisplay : Bool

/-- One round of the unit loop of `Metadata.Validate`. The first unit must be the base. -/
def scanUnit (m : Metadata) (sc : UnitScan) (u : DenomUnit) : Except GoError UnitScan := do
  rejectIf (sc.first ∧ u.denom ≠ m.base)
    (.errorf ("metadata's first denomination unit must be the one with base denom '"
      ++ m.base ++ "'"))
  rejectIf (sc.first ∧ u.exponent ≠ 0)
    (.errorf ("the exponent for base denomination unit " ++ m.base ++ " must be 0"))
  -- strictly ascending, so an exponent is never repeated
  rejectIf (¬ sc.first ∧ u.exponent ≤ sc.currentExponent)
    (.errorf "denom units should be sorted asc by exponent")
  rejectIf (u.denom ∈ sc.seenUnits) (.errorf ("duplicate denomination unit " ++ u.denom))
  u.validate
  return {
    first := false
    currentExponent := u.exponent
    seenUnits := u.denom :: sc.seenUnits
    hasDisplay := sc.hasDisplay || u.denom == m.display }

/-- `Metadata.Validate`. -/
def Metadata.validate (m : Metadata) : Except GoError Unit := do
  rejectIf (isBlank m.name) (.errorf "name field cannot be blank")
  rejectIf (isBlank m.symbol) (.errorf "symbol field cannot be blank")
  prefixed "invalid metadata base denom" (validateDenom m.base)
  prefixed "invalid metadata display denom" (validateDenom m.display)
  let sc ← m.denomUnits.foldlM (scanUnit m) ⟨true, 0, [], false⟩
  rejectIf (¬ sc.hasDisplay)
    (.errorf ("metadata must contain a denomination unit with display denom '"
      ++ m.display ++ "'"))

/-! ## What validation accepts -/

section

variable {m : Metadata} {u : DenomUnit} {us : List DenomUnit} {sc sc' : UnitScan} {x : Unit}

theorem prefixed_ok_iff {msg : String} {r : Except GoError Unit} :
    prefixed msg r = .ok x ↔ r = .ok () := by
  cases r <;> simp [prefixed]

/-- One round passes when the unit is the base in the first place, or ascends in a later one,
and has not been seen. -/
theorem scanUnit_ok_iff : scanUnit m sc u = .ok sc' ↔
    (sc.first = true → u.denom = m.base ∧ u.exponent = 0) ∧
    (sc.first = false → sc.currentExponent < u.exponent) ∧
    u.denom ∉ sc.seenUnits ∧ u.validate = .ok () ∧
    sc' = ⟨false, u.exponent, u.denom :: sc.seenUnits, sc.hasDisplay || u.denom == m.display⟩ := by
  simp only [scanUnit, Foundation.except_bind_ok_iff, rejectIf_ok_iff]
  constructor
  · rintro ⟨_, hbase, _, hzero, _, hasc, _, hseen, _, hvalid, hsc⟩
    refine ⟨fun hf => ⟨?_, ?_⟩, fun hf => ?_, hseen, hvalid, (Except.ok.inj hsc).symm⟩
    · exact of_not_not fun hne => hbase ⟨hf, hne⟩
    · exact of_not_not fun hne => hzero ⟨hf, hne⟩
    · exact Nat.lt_of_not_le fun hle => hasc ⟨by simp [hf], hle⟩
  · rintro ⟨hfirst, hlater, hseen, hvalid, rfl⟩
    refine ⟨(), fun h => h.2 (hfirst h.1).1, (), fun h => h.2 (hfirst h.1).2, (), fun h => ?_, (),
      hseen, (), hvalid, rfl⟩
    exact absurd (hlater (by simpa using h.1)) (Nat.not_lt.mpr h.2)

/-- The whole loop: no denomination occurs twice, and it has found the display unit if there
is one. -/
theorem scanUnits_ok (h : us.foldlM (scanUnit m) sc = .ok sc') :
    (us.map DenomUnit.denom).Nodup ∧ (∀ u ∈ us, u.denom ∉ sc.seenUnits) ∧
      sc'.hasDisplay = (sc.hasDisplay || us.any fun u => u.denom == m.display) := by
  induction us generalizing sc with
  | nil =>
    obtain rfl := Except.ok.inj h
    simp
  | cons u us ih =>
    rw [List.foldlM_cons] at h
    obtain ⟨mid, hu, hus⟩ := Foundation.except_bind_ok_iff.mp h
    obtain ⟨-, -, hseen, -, rfl⟩ := scanUnit_ok_iff.mp hu
    obtain ⟨hnodup, hfresh, hdisplay⟩ := ih hus
    -- a later unit has not been seen, and this one is among those seen by then
    refine ⟨List.nodup_cons.mpr ⟨fun hin => ?_, hnodup⟩, fun v hv => ?_, ?_⟩
    · obtain ⟨v, hv, heq⟩ := List.mem_map.mp hin
      exact hfresh v hv (heq ▸ List.mem_cons_self ..)
    · rcases List.mem_cons.mp hv with rfl | hv
      · exact hseen
      · exact fun hin => hfresh v hv (List.mem_cons_of_mem _ hin)
    · rw [hdisplay, List.any_cons, Bool.or_assoc]

theorem Metadata.validate_ok_iff : m.validate = .ok x ↔
    isBlank m.name = false ∧ isBlank m.symbol = false ∧ validateDenom m.base = .ok () ∧
    validateDenom m.display = .ok () ∧
    ∃ sc, m.denomUnits.foldlM (scanUnit m) ⟨true, 0, [], false⟩ = .ok sc ∧
      sc.hasDisplay = true := by
  simp only [Metadata.validate, Foundation.except_bind_ok_iff, rejectIf_ok_iff, prefixed_ok_iff,
    Bool.not_eq_true, Bool.not_eq_false]
  constructor
  · rintro ⟨_, hname, _, hsymbol, _, hbase, _, hdisplay, sc, hsc, hfound⟩
    exact ⟨hname, hsymbol, hbase, hdisplay, sc, hsc, hfound⟩
  · rintro ⟨hname, hsymbol, hbase, hdisplay, sc, hsc, hfound⟩
    exact ⟨(), hname, (), hsymbol, (), hbase, (), hdisplay, sc, hsc, hfound⟩

/-- Accepted metadata has exactly one unit with the display denomination. -/
theorem Metadata.exists_display_unit (h : m.validate = .ok x) :
    ∃ u ∈ m.denomUnits, u.denom = m.display ∧
      ∀ v ∈ m.denomUnits, v.denom = m.display → v = u := by
  obtain ⟨-, -, -, -, sc, hsc, hfound⟩ := Metadata.validate_ok_iff.mp h
  obtain ⟨hnodup, -, hdisplay⟩ := scanUnits_ok hsc
  rw [hfound, Bool.false_or, eq_comm, List.any_eq_true] at hdisplay
  obtain ⟨u, hu, hud⟩ := hdisplay
  rw [beq_iff_eq] at hud
  exact ⟨u, hu, hud, fun v hv hvd => List.inj_on_of_nodup_map hnodup hv hu (hvd.trans hud.symm)⟩

end

/-! ## Comparison -/

/-- The unit loop of `equalMetadata`. The units are pointers, and `!=` compares the pointers:
`samePtr i` tells whether the two lists hold one and the same pointer at position `i`. -/
def equalUnits (samePtr : ℕ → Bool) : ℕ → List DenomUnit → List DenomUnit → Except GoError Unit
  | i, u :: us, v :: vs =>
    if samePtr i then equalUnits samePtr (i + 1) us vs
    else .error (.errorf ("metadata provided has different denom unit from stored, "
      ++ u.denom ++ " \xe2\x89\xa0 " ++ v.denom))
  | _, _, _ => .ok ()

/-- `equalMetadata`. -/
def equalMetadata (samePtr : ℕ → Bool) (a b : Metadata) : Except GoError Unit :=
  if a.base = b.base ∧ a.description = b.description ∧ a.display = b.display ∧
      a.name = b.name ∧ a.symbol = b.symbol then
    if a.denomUnits.length ≠ b.denomUnits.length then
      .error (.errorf ("metadata provided has different denom units from stored, "
        ++ toString a.denomUnits.length ++ " \xe2\x89\xa0 " ++ toString b.denomUnits.length))
    else equalUnits samePtr 0 a.denomUnits b.denomUnits
  else .error (.errorf "metadata provided is different from stored")

end GenesisEthermint.Types
