import GenesisEthermint.Cmd.ValidGenesis
import Mathlib.Algebra.Order.BigOperators.Group.List

/-!
# Vesting Amounts

An account may not vest more than it has. The check asks whether the balance is zero throughout,
and whether a vesting coin is above the balance entry of its denomination, where an entry that is
missing or zero never counts as exceeded. So a denomination the account does not have at all can
be vested, as long as the account has something else. And it looks at one entry at a time, so it
misses what two entries of the token, typed in its two units, vest together.
-/

namespace GenesisEthermint.Cmd

open GenesisEthermint.Foundation GenesisEthermint.Types

variable {host : Host} {inv : Invocation} {g g' : GenesisFile} {addr : AccAddress}
  {coins vesting : List Coin} {srt : Sorter}

/-! ## The check -/

/-- Of no denomination is more vested than the account has. -/
def WithinBalance (coins vesting : List Coin) : Prop := ∀ d, total vesting d ≤ total coins d

/-- **The promise**: the vesting amount is within the balance, or the command fails with the error
that says so and leaves the file as it was. -/
def Guarded (host : Host) (inv : Invocation) (g : GenesisFile) (coins vesting : List Coin) : Prop :=
  WithinBalance coins vesting ∨
    addGenesisAccount host inv g = .error (.error errVestingAmount) g

/-- **When the check is enough.** It refuses an account that has nothing, and a vesting coin above
the amount that is found for its denomination. Otherwise the account must have some of whatever
vests, and of the token, which can be typed in two units, as much as vests in both. -/
inductive CheckSuffices (srt : Sorter) (coins vesting : List Coin) : Prop where
  | empty (nothing : ∀ c ∈ coins, c.amount.val = 0)
  | above (v : Coin) (vests : v ∈ vesting)
      (found : amountOf (sortCoins srt coins) v.denom ≠ 0)
      (exceeds : amountOf (sortCoins srt coins) v.denom < v.amount.val)
  | present (others : ∀ v ∈ vesting, v.denom ≠ AttoPhoton → 0 < v.amount.val →
        ∃ c ∈ coins, c.denom = v.denom ∧ c.amount.val ≠ 0)
      (token : total vesting AttoPhoton ≤ total coins AttoPhoton)

/-- The condition under which the command reports a vesting amount that is too large. -/
def Refuses (srt : Sorter) (coins vesting : List Coin) : Prop :=
  (coinsIsZero (sortCoins srt coins) ∧ ¬ coinsIsZero (sortCoins srt vesting)) ∨
    isAnyGT (sortCoins srt vesting) (sortCoins srt coins)

private theorem mem_sortCoins {c : Coin} : c ∈ sortCoins srt coins ↔ c ∈ coins :=
  srt.mem_sort _ _

theorem coinsIsZero_sortCoins : coinsIsZero (sortCoins srt coins) = coinsIsZero coins := by
  rw [Bool.eq_iff_iff, coinsIsZero, coinsIsZero, List.all_eq_true, List.all_eq_true]
  exact forall_congr' fun c => imp_congr_left mem_sortCoins

private theorem coinsIsZero_iff : coinsIsZero coins = true ↔ ∀ c ∈ coins, c.amount.val = 0 := by
  simp [coinsIsZero, coinIsZero]

/-- `IsAnyGT` against a sorted balance. -/
private theorem isAnyGT_iff : isAnyGT (sortCoins srt vesting) (sortCoins srt coins) = true ↔
    ∃ v ∈ vesting, amountOf (sortCoins srt coins) v.denom ≠ 0 ∧
      amountOf (sortCoins srt coins) v.denom < v.amount.val := by
  unfold isAnyGT
  split
  · rename_i hlen
    -- in a balance of no coins nothing is found
    refine iff_of_false Bool.false_ne_true fun ⟨v, _, hfound, _⟩ => hfound ?_
    rw [List.length_eq_zero_iff.mp hlen]
    rfl
  · simp only [List.any_eq_true, Bool.and_eq_true, decide_eq_true_eq, mem_sortCoins, ne_eq,
      and_comm]

/-- When the check refuses. -/
theorem refuses_iff (hvesting : coinsIsZero vesting = false) : Refuses srt coins vesting ↔
    (∀ c ∈ coins, c.amount.val = 0) ∨
      ∃ v ∈ vesting, amountOf (sortCoins srt coins) v.denom ≠ 0 ∧
        amountOf (sortCoins srt coins) v.denom < v.amount.val := by
  rw [Refuses, coinsIsZero_sortCoins, coinsIsZero_sortCoins, hvesting, isAnyGT_iff,
    coinsIsZero_iff]
  simp only [Bool.false_eq_true, not_false_eq_true, and_true]

/-! ## The command's answer -/

private theorem errVestingAmount_ne (text : String) :
    GoError.errorf ("cannot add account at existing address " ++ text) ≠ errVestingAmount := by
  intro h
  have hhead := congrArg (fun e : GoError => e.error.toList.head?) h
  simp [GoError.error, errVestingAmount, String.toList_append] at hhead

private theorem addCoin_ne_error {c c' : Coin} {e : GoError} :
    addCoin c c' ≠ .error (.error e) := by
  unfold addCoin
  split <;> simp

private theorem bind_ne_error {α β : Type} {x : Outcome α} {f : α → Outcome β} {e : GoError}
    (hx : x ≠ .error (.error e)) (hf : ∀ a, f a ≠ .error (.error e)) :
    (x >>= f) ≠ .error (.error e) := by
  cases x with
  | ok a => exact hf a
  | error e' => exact fun h => hx (congrArg _ (Except.error.inj h))

private theorem safeAddFrom_ne_error {c : Coin} {a b : List Coin}
    {next : List Coin → Outcome (List Coin)} {e : GoError}
    (hnext : ∀ b, next b ≠ .error (.error e)) : safeAddFrom c a next b ≠ .error (.error e) := by
  have hpure (r : List Coin) : (pure r : Outcome (List Coin)) ≠ .error (.error e) :=
    fun h => by cases h
  induction b with
  | nil => exact fun h => by cases h
  | cons c' b ih =>
    unfold safeAddFrom
    split
    · exact bind_ne_error (hnext _) fun _ => hpure _
    · split
      · exact bind_ne_error addCoin_ne_error fun _ => bind_ne_error (hnext _) fun _ => hpure _
      · exact bind_ne_error ih fun _ => hpure _

/-- Adding coins goes through or panics. -/
private theorem safeAdd_ne_error {a b : List Coin} {e : GoError} :
    safeAdd a b ≠ .error (.error e) := by
  unfold safeAdd
  split
  · simp
  · split
    · simp
    · clear * -
      induction a generalizing b with
      | nil => exact fun h => by cases h
      | cons c a ih => exact safeAddFrom_ne_error fun b => ih

/-- The account is refused for its vesting amount exactly if the check says so. -/
private theorem newGenesisAccount_error_iff {vestingStart vestingEnd : ℤ}
    (hvesting : coinsIsZero vesting = false) :
    newGenesisAccount srt ⟨addr, sortCoins srt coins⟩ vesting vestingStart vestingEnd =
      .error errVestingAmount ↔ Refuses srt coins vesting := by
  have hother : GoError.errorf
      "invalid vesting parameters; must supply start and end time or end time" ≠
      errVestingAmount := by decide
  simp only [newGenesisAccount, hvesting, Bool.false_eq_true, if_false, Refuses]
  by_cases href : (coinsIsZero (sortCoins srt coins) ∧ ¬ coinsIsZero (sortCoins srt vesting)) ∨
      isAnyGT (sortCoins srt vesting) (sortCoins srt coins)
  · refine iff_of_true ?_ href
    rw [rejectIf, if_pos href]
    rfl
  · refine iff_of_false (fun h => ?_) href
    rw [rejectIf, if_neg href] at h
    replace h : (if vestingStart ≠ 0 ∧ vestingEnd ≠ 0 then _ else
      if vestingEnd ≠ 0 then _ else _) = Except.error errVestingAmount := h
    -- both kinds of account are built, and the other error is another one
    split at h
    · cases h
    · split at h
      · cases h
      · exact hother (Except.error.inj h)

/-- **When the command reports the vesting amount**: exactly if the check refuses it. -/
theorem addGenesisAccount_error_iff (haddr : inv.address = .ok addr)
    (hcoins : parseCoinsNormalized host.srt inv.coins = .ok coins)
    (hvestingAmt : parseCoinsNormalized host.srt inv.vestingAmt = .ok vesting)
    (hvesting : coinsIsZero vesting = false) :
    addGenesisAccount host inv g = .error (.error errVestingAmount) g ↔
      Refuses host.srt coins vesting := by
  -- the three flags parse, so what is left is the account and the writes after it
  rw [addGenesisAccount, Exec.bind_of_ok (Exec.ofExcept_ok_iff.mpr ⟨haddr, rfl⟩),
    Exec.bind_of_ok (Exec.mapError_ok_iff.mpr (runOutcome_ok_iff.mpr ⟨hcoins, rfl⟩)),
    Exec.bind_of_ok (Exec.mapError_ok_iff.mpr (runOutcome_ok_iff.mpr ⟨hvestingAmt, rfl⟩))]
  dsimp only
  rw [Exec.bind_error_iff, Exec.ofExcept_error_iff]
  constructor
  · rintro (⟨e, herr, he, -⟩ | ⟨acc, _, hacc, h⟩)
    · obtain rfl := Failure.error.inj he
      exact (newGenesisAccount_error_iff hvesting).mp herr
    · -- no later error is this one
      exfalso
      obtain ⟨-, rfl⟩ := Exec.ofExcept_ok_iff.mp hacc
      -- in the order of the source: validation, the genesis state, a taken address, the supply
      rcases Exec.bind_error_iff.mp h with h | ⟨_, _, -, h⟩
      · rcases Exec.mapError_error_iff.mp h with ⟨e, he, -⟩ | ⟨m, he, -⟩
        · exact absurd (Failure.error.inj he) (by simp [errVestingAmount])
        · cases he
      rcases Exec.bind_error_iff.mp h with h | ⟨genesis, _, -, h⟩
      · exact Exec.get_error_iff.mp h
      rcases Exec.bind_error_iff.mp h with h | ⟨_, _, -, h⟩
      · exact errVestingAmount_ne _ (Failure.error.inj (Exec.failIf_error_iff.mp h).2.1).symm
      rcases Exec.bind_error_iff.mp h with h | ⟨_, _, -, h⟩
      · cases hadd : safeAdd genesis.supply (sortCoins host.srt coins) with
        | ok r =>
          rw [hadd] at h
          exact Exec.pure_error_iff.mp h
        | error f =>
          rw [hadd] at h
          obtain rfl : f = .error errVestingAmount := (EStateM.Result.error.inj h).1
          exact safeAdd_ne_error hadd
      · exact Exec.modify_error_iff.mp h
  · exact fun href => .inl ⟨_, (newGenesisAccount_error_iff hvesting).mpr href, rfl, rfl⟩

/-! ## Parsed lists -/

/-- A parsed list: no amount is negative, and only the token, which has two units, can occur
twice. -/
structure Parsed (coins : List Coin) : Prop where
  nonneg : ∀ c ∈ coins, 0 ≤ c.amount.val
  once : ∀ d ≠ AttoPhoton, (coins.map Coin.denom).count d ≤ 1

theorem parsed_of_parseCoinsNormalized {text : String}
    (h : parseCoinsNormalized srt text = .ok coins) : Parsed coins := by
  obtain ⟨typed, htyped, hmap⟩ := parseCoinsNormalized_ok h
  obtain ⟨hnodup, -⟩ := nodup_of_parseDecCoins htyped
  constructor
  · intro c hc
    have hin : (c.denom, c.amount.val) ∈ typed.map normalized := hmap ▸ List.mem_map_of_mem hc
    obtain ⟨x, -, hx⟩ := List.mem_map.mp hin
    have hval : c.amount.val = (normalized x).2 := congrArg Prod.snd hx.symm
    rw [hval, normalized]
    split <;> exact Int.natCast_nonneg _
  · intro d hd
    have hdenoms : coins.map Coin.denom = typed.map fun x => (normalized x).1 := by
      have hfst := congrArg (List.map Prod.fst) hmap
      rwa [List.map_map, List.map_map] at hfst
    -- a denomination other than the token's comes from a coin typed in it
    have hsame : ∀ x ∈ typed, ((normalized x).1 == d) = true → (x.denom == d) = true := by
      intro x _ hx
      rw [beq_iff_eq] at hx ⊢
      rw [normalized] at hx
      split at hx
      · exact absurd hx.symm hd
      · exact hx
    rw [hdenoms, List.count, List.countP_map]
    refine (List.countP_mono_left hsame).trans ?_
    have honce := List.nodup_iff_count_le_one.mp hnodup d
    rwa [List.count, List.countP_map] at honce

namespace Parsed

variable {d : String} {c : Coin}

theorem total_of_mem (h : Parsed coins) (hc : c ∈ coins) (hd : c.denom ≠ AttoPhoton) :
    total coins c.denom = c.amount.val :=
  tally_of_mem (h.once c.denom hd) hc

theorem total_nonneg (h : Parsed coins) : 0 ≤ total coins d := by
  refine List.sum_nonneg fun x hx => ?_
  obtain ⟨c, hc, rfl⟩ := List.mem_map.mp hx
  split
  · exact h.nonneg c hc
  · exact le_rfl

/-- What the account has some of, it has a coin of. -/
theorem exists_of_total_pos (h : 0 < total coins d) :
    ∃ c ∈ coins, c.denom = d ∧ c.amount.val ≠ 0 := by
  by_contra hno
  have hzero : total coins d = 0 := by
    refine List.sum_eq_zero fun x hx => ?_
    obtain ⟨c, hc, rfl⟩ := List.mem_map.mp hx
    split
    · rename_i hcd
      exact not_not.mp fun hne => hno ⟨c, hc, hcd, hne⟩
    · rfl
  omega

end Parsed

/-! ## When the check is enough -/

/-- An account that has some of whatever vests, in a check that does not refuse. -/
private theorem withinBalance_of_present (hcoins : Parsed coins) (hvests : Parsed vesting)
    (hseen : ∀ v ∈ vesting, amountOf (sortCoins srt coins) v.denom ≠ 0 →
      v.amount.val ≤ amountOf (sortCoins srt coins) v.denom)
    (hothers : ∀ v ∈ vesting, v.denom ≠ AttoPhoton → 0 < v.amount.val →
      ∃ c ∈ coins, c.denom = v.denom ∧ c.amount.val ≠ 0)
    (htoken : total vesting AttoPhoton ≤ total coins AttoPhoton) :
    WithinBalance coins vesting := by
  intro d
  by_cases hd : d = AttoPhoton
  · rw [hd]
    exact htoken
  by_cases hvested : 0 < total vesting d
  swap
  · exact (not_lt.mp hvested).trans hcoins.total_nonneg
  -- the one vesting coin of the denomination, and the one coin of the balance
  obtain ⟨v, hv, rfl, hne⟩ := Parsed.exists_of_total_pos hvested
  have hpos := lt_of_le_of_ne (hvests.nonneg v hv) (Ne.symm hne)
  obtain ⟨c, hc, hcd, hcne⟩ := hothers v hv hd hpos
  have hfound : amountOf (sortCoins srt coins) v.denom = total coins v.denom :=
    amountOf_sortCoins srt (hcoins.once _ hd)
  have htotal : total coins v.denom = c.amount.val := by
    rw [← hcd]
    exact hcoins.total_of_mem hc (hcd ▸ hd)
  have hle := hseen v hv (by rw [hfound, htotal]; exact hcne)
  rw [hvests.total_of_mem hv hd]
  rwa [hfound] at hle

/-- **When vesting is guarded**, for all coin lists the parser accepts: exactly when the check is
enough. -/
theorem guarded_iff (haddr : inv.address = .ok addr)
    (hcoins : parseCoinsNormalized host.srt inv.coins = .ok coins)
    (hvestingAmt : parseCoinsNormalized host.srt inv.vestingAmt = .ok vesting)
    (hvesting : coinsIsZero vesting = false) :
    Guarded host inv g coins vesting ↔ CheckSuffices host.srt coins vesting := by
  have hparsed := parsed_of_parseCoinsNormalized hcoins
  have hvests := parsed_of_parseCoinsNormalized hvestingAmt
  rw [Guarded, addGenesisAccount_error_iff haddr hcoins hvestingAmt hvesting,
    refuses_iff hvesting]
  constructor
  · rintro (hwithin | hzero | ⟨v, hv, hfound, hlt⟩)
    · refine .present (fun v hv hd hpos => ?_) (hwithin AttoPhoton)
      have hle := hwithin v.denom
      rw [hvests.total_of_mem hv hd] at hle
      exact Parsed.exists_of_total_pos (hpos.trans_le hle)
    · exact .empty hzero
    · exact .above v hv hfound hlt
  · intro hsuffices
    by_cases habove : ∃ v ∈ vesting, amountOf (sortCoins host.srt coins) v.denom ≠ 0 ∧
        amountOf (sortCoins host.srt coins) v.denom < v.amount.val
    · exact .inr (.inr habove)
    · cases hsuffices with
      | empty hzero => exact .inr (.inl hzero)
      | above v hv hfound hlt => exact absurd ⟨v, hv, hfound, hlt⟩ habove
      | present hothers htoken =>
        exact .inl (withinBalance_of_present hparsed hvests
          (fun v hv hfound => not_lt.mp fun hlt => habove ⟨v, hv, hfound, hlt⟩) hothers htoken)

/-! ## Two invocations -/

/-- An invocation for an account that vests until the time 1. -/
def vestingInvocation (coins vestingAmt : String) : Invocation :=
  ⟨.ok (List.replicate 20 1), coins, 0, 1, vestingAmt⟩

/-- A coin of this many units. -/
def coinOf (denom : String) (n : ℕ) (h : n < intBound) : Coin := ⟨denom, newIntFromBigInt n h⟩

private theorem ok_of_toOption {α : Type} {x : Outcome α} {a : α} (h : x.toOption = some a) :
    x = .ok a := by
  cases x with
  | ok b => exact congrArg _ (Option.some.inj h)
  | error e => cases h

theorem guarded_iff_enough : Guarded plainHost (vestingInvocation "5acoin" "3acoin") emptyFile
    [coinOf "acoin" 5 (by decide)] [coinOf "acoin" 3 (by decide)] := by
  refine (guarded_iff rfl (ok_of_toOption (by decide +kernel))
    (ok_of_toOption (by decide +kernel)) (by decide)).mpr (.present ?_ (by decide))
  intro v hv _ _
  obtain rfl := List.mem_singleton.mp hv
  exact ⟨_, List.mem_singleton_self _, rfl, by decide⟩

/-- **A denomination the account does not have** is vested. The command is accepted. -/
theorem not_guarded_absentDenom :
    parseCoinsNormalized plainHost.srt "5acoin" = .ok [coinOf "acoin" 5 (by decide)] ∧
    parseCoinsNormalized plainHost.srt "7bcoin" = .ok [coinOf "bcoin" 7 (by decide)] ∧
    (∃ g', addGenesisAccount plainHost (vestingInvocation "5acoin" "7bcoin") emptyFile =
      .ok () g') ∧
    ¬ Guarded plainHost (vestingInvocation "5acoin" "7bcoin") emptyFile
      [coinOf "acoin" 5 (by decide)] [coinOf "bcoin" 7 (by decide)] := by
  obtain ⟨g', hok⟩ := Exec.exists_ok (by decide +kernel :
    (addGenesisAccount plainHost (vestingInvocation "5acoin" "7bcoin")).succeeds emptyFile = true)
  refine ⟨ok_of_toOption (by decide +kernel), ok_of_toOption (by decide +kernel), ⟨g', hok⟩, ?_⟩
  rintro (hwithin | herr)
  · have hle := hwithin "bcoin"
    exact absurd hle (by decide)
  · rw [hok] at herr
    cases herr

end GenesisEthermint.Cmd
