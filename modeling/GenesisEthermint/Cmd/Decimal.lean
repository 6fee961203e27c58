import GenesisEthermint.Foundation.Exec
import GenesisEthermint.Foundation.Sorter
import GenesisEthermint.Types.Coins
import Mathlib.Data.Nat.Size
import Mathlib.Data.String.Basic

/-!
# Coins on the Command Line

A coin list is typed as amounts with up to 18 decimals, each with a unit. The list is checked as
it stands, and then every coin is converted to the smallest registered unit and cut off at whole
coins. The command registers two units of the same token, so two coins that were different when
they were checked can have the same denomination afterwards.
-/

namespace GenesisEthermint.Cmd

open GenesisEthermint.Foundation GenesisEthermint.Types

/-- What a function returns that may also return an error or panic. -/
abbrev Outcome (α : Type) := Except (Failure GoError) α

/-- An error for the caller. -/
def liftError {α : Type} : Except GoError α → Outcome α
  | .ok a => .ok a
  | .error e => .error (.error e)

/-- `mustValidateDenom`. -/
def mustValidateDenom (denom : String) : Outcome Unit :=
  match validateDenom denom with
  | .ok _ => .ok ()
  | .error e => .error (.panic e.error)

/-! ## Decimals -/

/-- `sdk.Dec`: a number of units of `10^-18`. Typed amounts have no sign. -/
abbrev Dec := ℕ

/-- `Precision`. -/
def Precision : ℕ := 18

/-- `precisionReuse`. -/
def precisionReuse : ℕ := 10 ^ Precision

/-- `OneDec`. -/
def oneDec : Dec := precisionReuse

/-- `NewDecWithPrec`. -/
def newDecWithPrec (i prec : ℕ) : Dec := i * 10 ^ (Precision - prec)

/-- `chopPrecisionAndRound`: to the nearest, and from the middle to the even one. -/
def chopPrecisionAndRound (d : ℕ) : ℕ :=
  let quo := d / precisionReuse
  let rem := d % precisionReuse
  if rem = 0 then quo
  else if rem < precisionReuse / 2 then quo
  else if precisionReuse / 2 < rem then quo + 1
  else if quo % 2 = 0 then quo
  else quo + 1

/-- A decimal of more than `maxDecBitLen` bits panics. -/
def checkDecBitLen (chopped : ℕ) : Outcome Dec :=
  if 2 ^ 316 ≤ chopped then .error (.panic "Int overflow") else .ok chopped

/-- `Dec.Mul`. -/
def decMul (d d2 : Dec) : Outcome Dec := checkDecBitLen (chopPrecisionAndRound (d * d2))

/-- `Dec.Quo`. -/
def decQuo (d d2 : Dec) : Outcome Dec :=
  checkDecBitLen (chopPrecisionAndRound (d * precisionReuse * precisionReuse / d2))

/-- `Dec.String`. -/
def decString (d : Dec) : String :=
  let decimals := toString (d % precisionReuse)
  toString (d / precisionReuse) ++ "." ++
    String.ofList (List.replicate (Precision - decimals.length) '0') ++ decimals

def isDigit (c : Char) : Bool := '0' ≤ c && c ≤ '9'

/-- The value of a string of digits. -/
def digitsValue (cs : List Char) : ℕ := cs.foldl (fun v c => 10 * v + (c.toNat - 48)) 0

/-- `NewDecFromStr`, of an amount the expression below has matched. -/
def newDecFromStr (str : List Char) : Except GoError Dec := do
  rejectIf (str = []) (.errorf "decimal string cannot be empty")
  let (combinedStr, lenDecs) ← match str.splitOn '.' with
    | [whole] => pure (whole, 0)
    | [whole, decimals] =>
      if decimals.length = 0 ∨ whole.length = 0 then throw (.errorf "invalid decimal length")
      else pure (whole ++ decimals, decimals.length)
    | _ => throw (.errorf "invalid decimal string")
  rejectIf (Precision < lenDecs) (.errorf ("invalid precision; max: " ++ toString Precision
    ++ ", got: " ++ toString lenDecs))
  -- padded to eighteen decimals, and read as one integer
  let combined := digitsValue (combinedStr ++ List.replicate (Precision - lenDecs) '0')
  rejectIf (intBound ≤ combined) (.errorf ("decimal out of range; bitLen: got "
    ++ toString combined.size ++ ", max 256"))
  return combined

/-! ## Decimal coins -/

/-- `sdk.DecCoin`. -/
structure DecCoin where
  denom : String
  amount : Dec
  deriving DecidableEq

/-- `coin.String`. -/
def DecCoin.string (c : DecCoin) : String := decString c.amount ++ c.denom

/-- `coin.IsPositive`. -/
def DecCoin.isPositive (c : DecCoin) : Bool := 0 < c.amount

/-- `NewDecCoinFromDec`. -/
def newDecCoinFromDec (denom : String) (amount : Dec) : Outcome DecCoin := do
  mustValidateDenom denom
  return ⟨denom, amount⟩

/-- The loop of `coins.Validate` over the coins after the first. -/
def validateDecRest (lowDenom : String) (seen : List String) : List DecCoin → Except GoError Unit
  | [] => .ok ()
  | coin :: rest => do
    rejectIf (coin.denom ∈ seen) (.errorf ("duplicate denomination " ++ coin.denom))
    validateDenom coin.denom
    rejectIf (coin.denom ≤ lowDenom)
      (.errorf ("denomination " ++ coin.denom ++ " is not sorted"))
    rejectIf (¬ coin.isPositive) (.errorf ("coin " ++ coin.denom ++ " amount is not positive"))
    validateDecRest coin.denom (coin.denom :: seen) rest

/-- `DecCoins.Validate`: sorted, positive, valid denominations, none of them twice. -/
def validateDecCoins : List DecCoin → Except GoError Unit
  | [] => .ok ()
  | coin :: rest => do
    validateDenom coin.denom
    rejectIf (¬ coin.isPositive)
      (.errorf ("coin " ++ coin.string ++ " amount is not positive"))
    validateDecRest coin.denom [coin.denom] rest

/-- `sanitizeDecCoins`: without the coins of no amount, and sorted. -/
def sanitizeDecCoins (srt : Sorter) (decCoins : List DecCoin) : List DecCoin :=
  srt.sort DecCoin.denom (decCoins.filter fun c => c.amount ≠ 0)

/-! ## Parsing -/

/-- The characters without the white space they begin with, in one of these encodings. -/
def trimWithin (encodings : List (List Char)) : ℕ → List Char → List Char
  | 0, cs => cs
  | fuel + 1, cs =>
    match encodings.find? (·.isPrefixOf cs) with
    | some e => trimWithin encodings fuel (cs.drop e.length)
    | none => cs

/-- `strings.TrimSpace`. -/
def trimSpace (cs : List Char) : List Char :=
  let left := trimWithin spaceEncodings cs.length cs
  (trimWithin (spaceEncodings.map List.reverse) left.length left.reverse).reverse

/-- `[[:space:]]`. -/
def isSpace (c : Char) : Bool := c ∈ ['\t', '\n', '\x0b', '\x0c', '\r', ' ']

/-- `reDecCoin`: digits with an optional fraction, or a fraction alone, and behind optional spaces
a denomination. Denominations begin with a letter, so there is one way to match. -/
def reDecCoin (cs : List Char) : Option (List Char × List Char) :=
  let whole := cs.takeWhile isDigit
  let rest := cs.dropWhile isDigit
  let (fraction, rest) := match rest with
    | '.' :: more =>
      if more.takeWhile isDigit = [] then ([], rest)
      else ('.' :: more.takeWhile isDigit, more.dropWhile isDigit)
    | _ => ([], rest)
  let denom := rest.dropWhile isSpace
  if whole ++ fraction ≠ [] ∧ reDnm denom = true then some (whole ++ fraction, denom) else none

/-- `ParseDecCoin`. A denomination the expression matches is valid. -/
def parseDecCoin (coinStr : List Char) : Except GoError DecCoin := do
  let coinStr := trimSpace coinStr
  match reDecCoin coinStr with
  | none => throw (.errorf ("invalid decimal coin expression: " ++ String.ofList coinStr))
  | some (amountStr, denomStr) =>
    match newDecFromStr amountStr with
    | .error e => throw (.wrap e ("failed to parse decimal coin amount: "
        ++ String.ofList amountStr))
    | .ok amount => return ⟨String.ofList denomStr, amount⟩

/-- `ParseDecCoins`. -/
def parseDecCoins (srt : Sorter) (coinsStr : String) : Except GoError (List DecCoin) := do
  let coinsStr := trimSpace coinsStr.toList
  if coinsStr = [] then return []
  else
    let decCoins ← (coinsStr.splitOn ',').mapM parseDecCoin
    let newDecCoins := sanitizeDecCoins srt decCoins
    validateDecCoins newDecCoins
    return newDecCoins

/-! ## Units -/

/-- `denomUnits` and `baseDenom`. -/
structure DenomUnits where
  units : List (String × Dec)
  base : String
  deriving DecidableEq

/-- `sdk.RegisterDenom`. -/
def registerDenom (denom : String) (unit : Dec) (r : DenomUnits) : Except GoError DenomUnits := do
  validateDenom denom
  rejectIf (r.units.lookup denom).isSome (.errorf ("denom " ++ denom ++ " already registered"))
  let units := (denom, unit) :: r.units
  let smaller := (units.lookup r.base).any fun least => unit < least
  return ⟨units, if r.base = "" ∨ smaller = true then denom else r.base⟩

/-- `DisplayDenom`. -/
def DisplayDenom : String := "L1coin"

/-- `ethermint.AttoPhoton`. -/
def AttoPhoton : String := "aphoton"

/-- `ethermint.BaseDenomUnit`. -/
def BaseDenomUnit : ℕ := 18

/-- `RegisterDenoms`. -/
def registerDenoms : Except GoError DenomUnits := do
  let r ← registerDenom DisplayDenom oneDec ⟨[], ""⟩
  registerDenom AttoPhoton (newDecWithPrec 1 BaseDenomUnit) r

/-- The units the command runs with. -/
def registeredUnits : DenomUnits := ⟨[(AttoPhoton, 1), (DisplayDenom, precisionReuse)], AttoPhoton⟩

theorem registerDenoms_ok : registerDenoms = .ok registeredUnits := by decide +kernel

/-- `GetDenomUnit`. -/
def getDenomUnit (r : DenomUnits) (denom : String) : Option Dec :=
  if reDnm denom.toList then r.units.lookup denom else none

/-- `ConvertDecCoin`. -/
def convertDecCoin (r : DenomUnits) (coin : DecCoin) (denom : String) : Outcome DecCoin := do
  liftError (validateDenom denom)
  match getDenomUnit r coin.denom with
  | none => throw (.error (.errorf ("source denom not registered: " ++ coin.denom)))
  | some srcUnit =>
    match getDenomUnit r denom with
    | none => throw (.error (.errorf ("destination denom not registered: " ++ denom)))
    | some dstUnit =>
      -- units of one size are renamed without arithmetic
      if srcUnit = dstUnit then newDecCoinFromDec denom coin.amount
      else do
        let scaled ← decMul coin.amount srcUnit
        let amount ← decQuo scaled dstUnit
        newDecCoinFromDec denom amount

/-- `NormalizeDecCoin`: the coin as it is if it cannot be converted. -/
def normalizeDecCoin (r : DenomUnits) (coin : DecCoin) : Outcome DecCoin :=
  if r.base = "" then .ok coin
  else
    match convertDecCoin r coin r.base with
    | .error (.error _) => .ok coin
    | newCoin => newCoin

/-- `TruncateDecimal`; the change is not used. -/
def truncateDecimal (coin : DecCoin) : Outcome Coin := do
  let truncated := coin.amount / precisionReuse
  if h : truncated < intBound then
    mustValidateDenom coin.denom
    return ⟨coin.denom, newIntFromBigInt truncated h⟩
  else throw (.panic "NewIntFromBigInt() out of bound")

/-- `NormalizeCoins`. -/
def normalizeCoins (r : DenomUnits) (coins : List DecCoin) : Outcome (List Coin) :=
  coins.mapM fun coin => do
    let newCoin ← normalizeDecCoin r coin
    truncateDecimal newCoin

/-- `ParseCoinsNormalized`. -/
def parseCoinsNormalized (srt : Sorter) (coinStr : String) : Outcome (List Coin) := do
  let coins ← liftError (parseDecCoins srt coinStr)
  normalizeCoins registeredUnits coins

/-! ## What is parsed -/

theorem liftError_ok_iff {α : Type} {x : Except GoError α} {a : α} :
    liftError x = .ok a ↔ x = .ok a := by
  cases x <;> simp [liftError]

private theorem mapM_ok {α β ε : Type} {f : α → Except ε β} {l : List α} {r : List β}
    (h : l.mapM f = .ok r) : List.Forall₂ (fun a b => f a = .ok b) l r := by
  induction l generalizing r with
  | nil =>
    rw [List.mapM_nil] at h
    obtain rfl := Except.ok.inj h
    exact .nil
  | cons a l ih =>
    rw [List.mapM_cons] at h
    obtain ⟨b, hb, h⟩ := except_bind_ok_iff.mp h
    obtain ⟨bs, hbs, h⟩ := except_bind_ok_iff.mp h
    obtain rfl := Except.ok.inj h
    exact .cons hb (ih hbs)

private theorem nodup_of_validateDecRest {coins : List DecCoin} {low : String}
    {seen : List String} (h : validateDecRest low seen coins = .ok ()) :
    (coins.map DecCoin.denom).Nodup ∧ (∀ c ∈ coins, c.denom ∉ seen) ∧
      ∀ c ∈ coins, 0 < c.amount := by
  -- on the coins; the denominations seen so far go with it
  induction coins generalizing low seen with
  | nil => exact ⟨List.nodup_nil, (fun c hc => by cases hc), (fun c hc => by cases hc)⟩
  | cons coin rest ih =>
    simp only [validateDecRest, except_bind_ok_iff, rejectIf_ok_iff, not_not] at h
    obtain ⟨_, hnew, _, -, _, -, _, hpos, hrest⟩ := h
    obtain ⟨hnodup, hseen, hall⟩ := ih hrest
    refine ⟨?_, fun c hc => ?_, fun c hc => ?_⟩
    · -- what comes later was not seen, and this coin was
      rw [List.map_cons, List.nodup_cons]
      refine ⟨fun hin => ?_, hnodup⟩
      obtain ⟨c, hc, hcd⟩ := List.mem_map.mp hin
      exact hseen c hc (hcd ▸ List.mem_cons_self ..)
    · rcases List.mem_cons.mp hc with rfl | hc
      · exact hnew
      · exact fun hin => hseen c hc (List.mem_cons_of_mem _ hin)
    · rcases List.mem_cons.mp hc with rfl | hc
      · simpa [DecCoin.isPositive] using hpos
      · exact hall c hc

/-- The typed list is checked: no unit twice, and no amount of zero. -/
theorem nodup_of_parseDecCoins {srt : Sorter} {coinsStr : String} {coins : List DecCoin}
    (h : parseDecCoins srt coinsStr = .ok coins) :
    (coins.map DecCoin.denom).Nodup ∧ ∀ c ∈ coins, 0 < c.amount := by
  simp only [parseDecCoins] at h
  split at h
  · obtain rfl := Except.ok.inj h
    exact ⟨List.nodup_nil, fun c hc => by cases hc⟩
  · obtain ⟨decCoins, -, h⟩ := except_bind_ok_iff.mp h
    obtain ⟨_, hvalid, h⟩ := except_bind_ok_iff.mp h
    obtain rfl := Except.ok.inj h
    cases hs : sanitizeDecCoins srt decCoins with
    | nil => exact ⟨List.nodup_nil, fun c hc => by cases hc⟩
    | cons coin rest =>
      simp only [hs, validateDecCoins, except_bind_ok_iff, rejectIf_ok_iff, not_not] at hvalid
      obtain ⟨_, -, _, hpos, hrest⟩ := hvalid
      obtain ⟨hnodup, hseen, hall⟩ := nodup_of_validateDecRest hrest
      refine ⟨?_, fun c hc => ?_⟩
      · rw [List.map_cons, List.nodup_cons]
        refine ⟨fun hin => ?_, hnodup⟩
        obtain ⟨c, hc, hcd⟩ := List.mem_map.mp hin
        exact hseen c hc (List.mem_singleton.mpr hcd)
      · rcases List.mem_cons.mp hc with rfl | hc
        · simpa [DecCoin.isPositive] using hpos
        · exact hall c hc

/-! ## What normalising does -/

/-- A whole number is not rounded. -/
theorem chopPrecisionAndRound_mul (d : ℕ) : chopPrecisionAndRound (d * precisionReuse) = d := by
  have hpos : 0 < precisionReuse := by decide
  simp only [chopPrecisionAndRound, Nat.mul_mod_left, Nat.mul_div_cancel _ hpos, if_true]

private theorem checkDecBitLen_ok {n d : ℕ} (h : checkDecBitLen n = .ok d) : d = n := by
  unfold checkDecBitLen at h
  split at h
  · cases h
  · exact (Except.ok.inj h).symm

private theorem newDecCoinFromDec_ok {denom : String} {amount : Dec} {c : DecCoin}
    (h : newDecCoinFromDec denom amount = .ok c) : c = ⟨denom, amount⟩ := by
  obtain ⟨_, -, h⟩ := except_bind_ok_iff.mp h
  exact (Except.ok.inj h).symm

private theorem getDenomUnit_registeredUnits {d : String} {unit : Dec}
    (h : getDenomUnit registeredUnits d = some unit) :
    (d = AttoPhoton ∧ unit = 1) ∨ (d = DisplayDenom ∧ unit = precisionReuse) := by
  unfold getDenomUnit registeredUnits at h
  split at h
  · simp only [List.lookup_cons, List.lookup_nil] at h
    split at h
    · rename_i heq
      exact .inl ⟨by simpa using heq, (Option.some.inj h).symm⟩
    · split at h
      · rename_i heq
        exact .inr ⟨by simpa using heq, (Option.some.inj h).symm⟩
      · cases h
  · cases h

private theorem except_bind_error {α β ε : Type} {x : Except ε α} {g : α → Except ε β} {e : ε}
    (h : (x >>= g) = .error e) : x = .error e ∨ ∃ a, x = .ok a ∧ g a = .error e := by
  cases x with
  | ok a => exact .inr ⟨a, rfl, h⟩
  | error e' => exact .inl (congrArg _ (Except.error.inj h))

private theorem checkDecBitLen_ne_error {n : ℕ} {e : GoError} :
    checkDecBitLen n ≠ .error (.error e) := by
  unfold checkDecBitLen
  split <;> simp

private theorem newDecCoinFromDec_ne_error {denom : String} {amount : Dec} {e : GoError} :
    newDecCoinFromDec denom amount ≠ .error (.error e) := by
  unfold newDecCoinFromDec mustValidateDenom
  cases validateDenom denom <;> simp [bind, Except.bind, pure, Except.pure]

private theorem validateDenom_AttoPhoton : validateDenom AttoPhoton = .ok () := by
  decide +kernel

private theorem getDenomUnit_AttoPhoton : getDenomUnit registeredUnits AttoPhoton = some 1 := by
  decide +kernel

private theorem getDenomUnit_DisplayDenom :
    getDenomUnit registeredUnits DisplayDenom = some precisionReuse := by
  decide +kernel

private theorem convertDecCoin_ok {c c' : DecCoin}
    (h : convertDecCoin registeredUnits c AttoPhoton = .ok c') :
    c' = if c.denom = DisplayDenom then ⟨AttoPhoton, c.amount * precisionReuse⟩ else c := by
  obtain ⟨_, -, h⟩ := except_bind_ok_iff.mp h
  cases hunit : getDenomUnit registeredUnits c.denom with
  | none =>
    simp only [hunit] at h
    cases h
  | some unit =>
    simp only [hunit, getDenomUnit_AttoPhoton] at h
    -- the unit is the base one, which is returned as it is, or the display one
    rcases getDenomUnit_registeredUnits hunit with ⟨hd, rfl⟩ | ⟨hd, rfl⟩
    · rw [if_pos rfl] at h
      have hne : ¬ c.denom = DisplayDenom := by rw [hd]; decide
      rw [newDecCoinFromDec_ok h, if_neg hne, ← hd]
    · rw [if_neg (by decide)] at h
      obtain ⟨scaled, hmul, h⟩ := except_bind_ok_iff.mp h
      obtain ⟨amount, hquo, h⟩ := except_bind_ok_iff.mp h
      -- the amount is multiplied by the display unit and divided by one, both exactly
      obtain rfl := checkDecBitLen_ok hmul
      obtain rfl := checkDecBitLen_ok hquo
      rw [newDecCoinFromDec_ok h, if_pos hd, Nat.div_one, chopPrecisionAndRound_mul,
        chopPrecisionAndRound_mul]

/-- A coin that is left as it is was not in the display unit. -/
private theorem convertDecCoin_error {c : DecCoin} {e : GoError}
    (h : convertDecCoin registeredUnits c AttoPhoton = .error (.error e)) :
    c.denom ≠ DisplayDenom := by
  intro hd
  rcases except_bind_error h with h | ⟨_, -, h⟩
  · rw [validateDenom_AttoPhoton] at h
    cases h
  · rw [hd, getDenomUnit_DisplayDenom] at h
    simp only [getDenomUnit_AttoPhoton] at h
    rw [if_neg (by decide)] at h
    -- the two operations panic or go through
    rcases except_bind_error h with h | ⟨scaled, -, h⟩
    · exact checkDecBitLen_ne_error h
    · rcases except_bind_error h with h | ⟨amount, -, h⟩
      · exact checkDecBitLen_ne_error h
      · exact newDecCoinFromDec_ne_error h

/-- **A display coin becomes base coins**, and any other coin stays as it is. -/
theorem normalizeDecCoin_ok {c c' : DecCoin} (h : normalizeDecCoin registeredUnits c = .ok c') :
    c' = if c.denom = DisplayDenom then ⟨AttoPhoton, c.amount * precisionReuse⟩ else c := by
  rw [normalizeDecCoin, if_neg (by decide)] at h
  cases hconv : convertDecCoin registeredUnits c AttoPhoton with
  | ok c'' =>
    simp only [registeredUnits] at h hconv
    rw [hconv] at h
    obtain rfl := Except.ok.inj h
    exact convertDecCoin_ok hconv
  | error f =>
    cases f with
    | error e =>
      rw [if_neg (convertDecCoin_error hconv)]
      simp only [registeredUnits] at h hconv
      rw [hconv] at h
      exact (Except.ok.inj h).symm
    | panic m =>
      simp only [registeredUnits] at h hconv
      rw [hconv] at h
      cases h

/-- Cutting a coin off at whole coins. -/
theorem truncateDecimal_ok {c : DecCoin} {coin : Coin} (h : truncateDecimal c = .ok coin) :
    coin.denom = c.denom ∧ coin.amount.val = (c.amount / precisionReuse : ℕ) := by
  unfold truncateDecimal at h
  dsimp only at h
  split at h
  · obtain ⟨_, -, h⟩ := except_bind_ok_iff.mp h
    obtain rfl := Except.ok.inj h
    exact ⟨rfl, rfl⟩
  · cases h

/-- What becomes of a typed coin. -/
def normalized (c : DecCoin) : String × ℤ :=
  if c.denom = DisplayDenom then (AttoPhoton, c.amount)
  else (c.denom, (c.amount / precisionReuse : ℕ))

/-- **The parsed coins** are the typed ones, normalised one by one. -/
theorem parseCoinsNormalized_ok {srt : Sorter} {coinStr : String} {coins : List Coin}
    (h : parseCoinsNormalized srt coinStr = .ok coins) :
    ∃ typed, parseDecCoins srt coinStr = .ok typed ∧
      coins.map (fun c => (c.denom, c.amount.val)) = typed.map normalized := by
  obtain ⟨typed, htyped, hnorm⟩ := except_bind_ok_iff.mp h
  refine ⟨typed, liftError_ok_iff.mp htyped, ?_⟩
  have hall := mapM_ok hnorm
  clear h htyped hnorm
  induction hall with
  | nil => rfl
  | cons hc _ ih =>
    obtain ⟨c', hc', hcoin⟩ := except_bind_ok_iff.mp hc
    obtain ⟨hd, ha⟩ := truncateDecimal_ok hcoin
    rw [List.map_cons, List.map_cons, ih, hd, ha, normalizeDecCoin_ok hc', normalized]
    congr 1
    split
    · rw [Nat.mul_div_cancel _ (by decide)]
    · rfl

end GenesisEthermint.Cmd
