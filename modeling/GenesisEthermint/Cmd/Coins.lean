import GenesisEthermint.Cmd.Decimal
import GenesisEthermint.Foundation.Tally
import Mathlib.Tactic.Ring

/-!
# Coin Lists

The operations of `sdk.Coins` the command uses. They are meant for lists that are sorted and name
every denomination once, and none of them checks the second. A coin list stands for what it holds of
each denomination: adding two lists adds that, whether or not the lists are what is meant.
-/

namespace GenesisEthermint.Cmd

open GenesisEthermint.Foundation GenesisEthermint.Types

variable {a b r coins : List Coin} {d : String}

/-! ## The operations -/

/-- `coin.IsZero`. -/
def coinIsZero (c : Coin) : Bool := c.amount.val = 0

/-- `coins.IsZero`. -/
def coinsIsZero (coins : List Coin) : Bool := coins.all coinIsZero

/-- `coins.Sort`. -/
def sortCoins (srt : Sorter) (coins : List Coin) : List Coin := srt.sort Coin.denom coins

/-- `coins.isSorted`. -/
def isSorted : List Coin → Bool
  | c :: c' :: rest => c.denom ≤ c'.denom && isSorted (c' :: rest)
  | _ => true

/-- `removeZeroCoins`. -/
def removeZeroCoins (coins : List Coin) : List Coin := coins.filter fun c => ¬ coinIsZero c

/-- `coin.Add`, of two coins of one denomination. -/
def addCoin (coinA coinB : Coin) : Outcome Coin :=
  if h : (coinA.amount.val + coinB.amount.val).natAbs < intBound then
    .ok ⟨coinA.denom, ⟨coinA.amount.val + coinB.amount.val, h⟩⟩
  else .error (.panic "Int overflow")

/-- Append a coin to the sum unless it is zero. -/
def keepCoin (c : Coin) (sum : List Coin) : List Coin := if coinIsZero c then sum else c :: sum

/-- The loop of `safeAdd` while the first set stands at `coinA`; `next` is the loop once it has
moved on. -/
def safeAddFrom (coinA : Coin) (restA : List Coin) (next : List Coin → Outcome (List Coin)) :
    List Coin → Outcome (List Coin)
  | [] => .ok (removeZeroCoins (coinA :: restA))
  | coinB :: restB =>
    if coinA.denom < coinB.denom then do
      let sum ← next (coinB :: restB)
      return keepCoin coinA sum
    else if coinA.denom = coinB.denom then do
      let res ← addCoin coinA coinB
      -- a sum of zero is left out
      let sum ← next restB
      return keepCoin res sum
    else do
      let sum ← safeAddFrom coinA restA next restB
      return keepCoin coinB sum

/-- The loop of `safeAdd`. -/
def safeAddLoop : List Coin → List Coin → Outcome (List Coin)
  | [], coinsB => .ok (removeZeroCoins coinsB)
  | coinA :: restA, coinsB => safeAddFrom coinA restA (safeAddLoop restA) coinsB

/-- `coins.Add`. -/
def safeAdd (coins coinsB : List Coin) : Outcome (List Coin) :=
  if ¬ isSorted coins then .error (.panic "Coins (self) must be sorted")
  else if ¬ isSorted coinsB then .error (.panic "Wrong argument: coins must be sorted")
  else safeAddLoop coins coinsB

/-- `coins.AmountOf`, of a denomination that is valid. A list of one coin is halved like any
other. -/
def amountOf (coins : List Coin) (denom : String) : ℤ :=
  findWithin Coin.denom (fun c => c.amount.val) coins.length coins denom

/-- `coins.IsAnyGT`. -/
def isAnyGT (coins coinsB : List Coin) : Bool :=
  if coinsB.length = 0 then false
  else coins.any fun coin =>
    amountOf coinsB coin.denom < coin.amount.val && amountOf coinsB coin.denom ≠ 0

/-- `coins.IsAllGTE`. -/
def isAllGTE (coins coinsB : List Coin) : Bool :=
  if coinsB.length = 0 then true
  else if coins.length = 0 then false
  else coinsB.all fun coinB => ¬ amountOf coins coinB.denom < coinB.amount.val

/-! ## What a list holds -/

/-- What the coins of a denomination add up to. -/
def total (coins : List Coin) (d : String) : ℤ :=
  tally Coin.denom (fun c => c.amount.val) coins d

/-- **A proper coin list**: the denominations ascend, so none occurs twice, and the amounts are
positive. -/
structure Proper (coins : List Coin) : Prop where
  ascending : coins.Pairwise fun c c' => c.denom < c'.denom
  positive : ∀ c ∈ coins, 0 < c.amount.val

theorem total_sortCoins (srt : Sorter) : total (sortCoins srt coins) d = total coins d :=
  tally_perm (srt.perm _ _)

/-- A sorted list is proper exactly if no denomination occurs twice and no amount is zero. -/
theorem proper_sortCoins_iff (srt : Sorter) : Proper (sortCoins srt coins) ↔
    (coins.map Coin.denom).Nodup ∧ ∀ c ∈ coins, 0 < c.amount.val := by
  constructor
  · rintro ⟨hasc, hpos⟩
    exact ⟨(srt.pairwise_lt_sort_iff _ _).mp hasc,
      fun c hc => hpos c ((srt.mem_sort _ _).mpr hc)⟩
  · rintro ⟨hnodup, hpos⟩
    exact ⟨(srt.pairwise_lt_sort_iff _ _).mpr hnodup,
      fun c hc => hpos c ((srt.mem_sort _ _).mp hc)⟩

/-- After sorting, the search finds what the list holds of a denomination that occurs once at
most. -/
theorem amountOf_sortCoins (srt : Sorter) (h : (coins.map Coin.denom).count d ≤ 1) :
    amountOf (sortCoins srt coins) d = total coins d := by
  have hperm : (sortCoins srt coins).Perm coins := srt.perm Coin.denom coins
  have hsorted : (sortCoins srt coins).Pairwise fun c c' => c.denom ≤ c'.denom :=
    srt.sorted Coin.denom coins
  rw [← (hperm.map Coin.denom).count_eq] at h
  rw [amountOf, findWithin_eq_tally hsorted h le_rfl]
  exact total_sortCoins srt

private theorem total_removeZeroCoins : total (removeZeroCoins coins) d = total coins d :=
  tally_filter fun c hc => by simpa [coinIsZero] using hc

private theorem total_cons (c : Coin) (coins : List Coin) :
    total (c :: coins) d = (if c.denom = d then c.amount.val else 0) + total coins d :=
  tally_cons

private theorem total_keepCoin (c : Coin) : total (keepCoin c coins) d = total (c :: coins) d := by
  unfold keepCoin
  split
  · rename_i hzero
    have hval : c.amount.val = 0 := by simpa [coinIsZero] using hzero
    rw [total_cons, hval, ite_self, zero_add]
  · rfl

private theorem addCoin_ok {c c' s : Coin} (h : addCoin c c' = .ok s) :
    s.denom = c.denom ∧ s.amount.val = c.amount.val + c'.amount.val := by
  unfold addCoin at h
  split at h
  · obtain rfl := Except.ok.inj h
    exact ⟨rfl, rfl⟩
  · cases h

/-- One round of the loop takes a coin from either list, or one from both. -/
private theorem total_safeAddFrom {c : Coin} {next : List Coin → Outcome (List Coin)}
    (hnext : ∀ {b r}, next b = .ok r → total r d = total a d + total b d)
    (h : safeAddFrom c a next b = .ok r) : total r d = total (c :: a) d + total b d := by
  -- on the second list; `hnext` is the induction over the first one
  induction b generalizing r with
  | nil =>
    obtain rfl := Except.ok.inj h
    rw [total_removeZeroCoins]
    exact (add_zero _).symm
  | cons c' b ih =>
    unfold safeAddFrom at h
    -- the three cases of the merge: the smaller denomination goes first, equal ones are added
    split at h
    · obtain ⟨sum, hsum, h⟩ := except_bind_ok_iff.mp h
      obtain rfl := Except.ok.inj h
      rw [total_keepCoin, total_cons, hnext hsum, total_cons c a]
      ring
    · split at h
      · rename_i heq
        obtain ⟨s, hs, h⟩ := except_bind_ok_iff.mp h
        obtain ⟨sum, hsum, h⟩ := except_bind_ok_iff.mp h
        obtain rfl := Except.ok.inj h
        obtain ⟨hsd, hsv⟩ := addCoin_ok hs
        rw [total_keepCoin, total_cons, total_cons, total_cons, hnext hsum, hsd, hsv, ← heq]
        split <;> ring
      · obtain ⟨sum, hsum, h⟩ := except_bind_ok_iff.mp h
        obtain rfl := Except.ok.inj h
        rw [total_keepCoin, total_cons, ih hsum, total_cons c' b]
        ring

/-- **Adding two lists adds what they hold.** -/
theorem total_safeAdd (h : safeAdd a b = .ok r) : total r d = total a d + total b d := by
  unfold safeAdd at h
  split at h
  · cases h
  · split at h
    · cases h
    · clear * - h
      induction a generalizing b r with
      | nil =>
        obtain rfl := Except.ok.inj h
        rw [total_removeZeroCoins]
        exact (zero_add _).symm
      | cons c a ih => exact total_safeAddFrom (fun hr => ih hr) h

end GenesisEthermint.Cmd
