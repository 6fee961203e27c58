import GenesisEthermint.Chain.Abi
import GenesisEthermint.Foundation.Ledger

/-!
# The OpenZeppelin Token

The contract the module deploys for a coin is an OpenZeppelin token with minter and burner
roles. Its bytecode is all the repository has of it, so this is the documented behaviour of
that preset: who may call what, when a call reverts, what it returns and which events it
emits. A call that reverts is `none`.
-/

namespace GenesisEthermint.Tokens

open GenesisEthermint.Foundation GenesisEthermint.Types GenesisEthermint.Chain

/-- The zero address, which can neither send, receive nor approve. -/
def zeroAddress : Address := ⟨List.replicate 20 0, rfl⟩

/-- The storage of a token contract. Its books balance, and its supply is a word. -/
structure OzToken where
  name : String
  symbol : String
  decimals : ℕ
  ledger : Ledger Address
  allowance : Address → Address → ℕ
  minter : Address → Bool
  burner : Address → Bool
  covered : ledger.Covered
  bounded : ledger.supply < 2 ^ 256

/-- What a call that did not revert leaves behind. -/
structure OzResult where
  token : OzToken
  ret : List UInt8
  logs : List Log

/-- A string as a contract returns it: offset, length, and the bytes padded to whole words. -/
def encodeString (s : String) : List UInt8 :=
  let bytes := s.toList.map fun c => UInt8.ofNat c.toNat
  word 32 ++ word bytes.length ++ bytes ++ List.replicate ((32 - bytes.length % 32) % 32) 0

namespace OzToken

variable (t : OzToken)

/-- `_transfer`. -/
def transferred (sender recipient : Address) (n : ℕ) : Option OzToken :=
  if h : sender ≠ zeroAddress ∧ recipient ≠ zeroAddress ∧ n ≤ t.ledger.bal sender then
    some { t with
      ledger := t.ledger.move sender recipient n
      covered := Ledger.covered_move t.covered h.2.2
      bounded := t.bounded }
  else none

/-- `_mint`: the total supply must stay a word. -/
def minted (account : Address) (n : ℕ) : Option OzToken :=
  if h : account ≠ zeroAddress ∧ t.ledger.supply + n < 2 ^ 256 then
    some { t with
      ledger := t.ledger.mint account n
      covered := Ledger.covered_mint t.covered
      bounded := h.2 }
  else none

/-- `_burn`. -/
def burned (account : Address) (n : ℕ) : Option OzToken :=
  if h : account ≠ zeroAddress ∧ n ≤ t.ledger.bal account then
    some { t with
      ledger := t.ledger.burn account n
      covered := Ledger.covered_burn t.covered h.2
      bounded := lt_of_le_of_lt (Nat.sub_le ..) t.bounded }
  else none

/-- `_approve`. -/
def approved (owner spender : Address) (n : ℕ) : Option OzToken :=
  if owner ≠ zeroAddress ∧ spender ≠ zeroAddress then
    some { t with
      allowance := Function.update t.allowance owner
        (Function.update (t.allowance owner) spender n) }
  else none

/-- Use up an allowance of the caller. -/
def spendAllowance (owner spender : Address) (n : ℕ) : Option OzToken :=
  if n ≤ t.allowance owner spender then
    t.approved owner spender (t.allowance owner spender - n)
  else none

/-- The log of an approval. -/
def approvalLog (self owner spender : Address) (n : ℕ) : Log where
  address := self
  topics := [approvalID, addressTopic owner, addressTopic spender]
  data := word n

/-- Execute a call of the token at the address `self`. -/
def exec (self caller : Address) : Method → List AbiArg → Option OzResult
  | .name, [] => some ⟨t, encodeString t.name, []⟩
  | .symbol, [] => some ⟨t, encodeString t.symbol, []⟩
  | .decimals, [] => some ⟨t, word t.decimals, []⟩
  | .transfer, [.address recipient, .uint256 n] => do
    let t ← t.transferred caller recipient n
    return ⟨t, word 1, [transferLog self caller recipient n]⟩
  -- the tokens move before the allowance is checked
  | .transferFrom, [.address owner, .address recipient, .uint256 n] => do
    let t ← t.transferred owner recipient n
    let t ← t.spendAllowance owner caller n
    return ⟨t, word 1, [transferLog self owner recipient n,
      approvalLog self owner caller (t.allowance owner caller)]⟩
  | .approve, [.address spender, .uint256 n] => do
    let t ← t.approved caller spender n
    return ⟨t, word 1, [approvalLog self caller spender n]⟩
  -- `mint` and `burnCoins` ask for a role, the other burns do not
  | .mint, [.address recipient, .uint256 n] => do
    guard (t.minter caller)
    let t ← t.minted recipient n
    return ⟨t, [], [transferLog self zeroAddress recipient n]⟩
  | .burn, [.uint256 n] => do
    let t ← t.burned caller n
    return ⟨t, [], [transferLog self caller zeroAddress n]⟩
  | .burnFrom, [.address owner, .uint256 n] => do
    let t ← t.spendAllowance owner caller n
    let t ← t.burned owner n
    return ⟨t, [], [transferLog self owner zeroAddress n]⟩
  | .burnCoins, [.address owner, .uint256 n] => do
    guard (t.burner caller)
    let t ← t.burned owner n
    return ⟨t, [], [transferLog self owner zeroAddress n]⟩
  -- no method of that name takes these arguments
  | _, _ => none

/-- A call as the token sees it. -/
structure Invocation where
  caller : Address
  method : Method
  args : List AbiArg

/-- Execute calls in order. The first that reverts reverts them all. -/
def execAll (self : Address) : OzToken → List Invocation → Option (OzToken × List Log)
  | t, [] => some (t, [])
  | t, i :: rest => do
    let r ← t.exec self i.caller i.method i.args
    let (t, logs) ← execAll self r.token rest
    return (t, r.logs ++ logs)

theorem execAll_nil_iff {self : Address} {t t' : OzToken} {logs : List Log} :
    execAll self t [] = some (t', logs) ↔ t = t' ∧ [] = logs := by
  rw [execAll, Option.some.injEq, Prod.mk.injEq]

theorem execAll_cons_iff {self : Address} {t t' : OzToken} {i : Invocation}
    {rest : List Invocation} {logs : List Log} :
    execAll self t (i :: rest) = some (t', logs) ↔
      ∃ r, t.exec self i.caller i.method i.args = some r ∧
        ∃ logs', execAll self r.token rest = some (t', logs') ∧ r.logs ++ logs' = logs := by
  simp only [execAll, Option.bind_eq_bind, Option.bind_eq_some_iff, Option.pure_def,
    Option.some.injEq, Prod.mk.injEq]
  constructor
  · rintro ⟨r, hr, ⟨_, logs'⟩, hrest, rfl, hlogs⟩
    exact ⟨r, hr, logs', hrest, hlogs⟩
  · rintro ⟨r, hr, logs', hrest, hlogs⟩
    exact ⟨r, hr, (t', logs'), hrest, rfl, hlogs⟩

/-! ## What a call can do -/

/-- The log of a booking: creations come from the zero address, destructions go there. -/
def entryLog (self : Address) : Ledger.Entry Address → Log
  | .move a b n => transferLog self a b n
  | .mint a n => transferLog self zeroAddress a n
  | .burn a n => transferLog self a zeroAddress n

/-- Who may make the token book an entry. -/
def Authorised (t : OzToken) (caller : Address) : Ledger.Entry Address → Prop
  | .move a _ n => caller = a ∨ n ≤ t.allowance a caller
  | .mint _ _ => t.minter caller = true
  | .burn a n => caller = a ∨ n ≤ t.allowance a caller ∨ t.burner caller = true

/-- The effect of a call that did not revert: at most one booking, made by somebody who may
make it and reported by one log, and possibly a change of the allowances. -/
inductive Effect (t : OzToken) (self caller : Address) (r : OzResult) : Prop where
  | silent (ledger_eq : r.token.ledger = t.ledger)
      (logs : ∀ log ∈ r.logs, ∃ owner spender n, log = approvalLog self owner spender n)
  | booked (e : Ledger.Entry Address) (authorised : t.Authorised caller e)
      (allowed : t.ledger.Allows e) (ledger_eq : r.token.ledger = t.ledger.post e)
      (rest : List Log) (logs : r.logs = entryLog self e :: rest)
      (approvals : ∀ log ∈ rest, ∃ owner spender n, log = approvalLog self owner spender n)

/-- The roles of `t` are those of `t'`. -/
def SameRoles (t t' : OzToken) : Prop := t'.minter = t.minter ∧ t'.burner = t.burner

section Steps

variable {t : OzToken} {t' : OzToken} {a b caller self : Address} {n : ℕ} {r : OzResult}
  {m : Method} {args : List AbiArg}

theorem transferred_some (h : t.transferred a b n = some t') :
    n ≤ t.ledger.bal a ∧ t'.ledger = t.ledger.move a b n ∧ t'.allowance = t.allowance ∧
      SameRoles t t' := by
  unfold transferred at h
  split at h
  · rename_i hc
    obtain rfl := Option.some.inj h
    exact ⟨hc.2.2, rfl, rfl, rfl, rfl⟩
  · cases h

theorem minted_some (h : t.minted a n = some t') :
    t'.ledger = t.ledger.mint a n ∧ t'.allowance = t.allowance ∧ SameRoles t t' := by
  unfold minted at h
  split at h
  · obtain rfl := Option.some.inj h
    exact ⟨rfl, rfl, rfl, rfl⟩
  · cases h

theorem burned_some (h : t.burned a n = some t') :
    n ≤ t.ledger.bal a ∧ t'.ledger = t.ledger.burn a n ∧ t'.allowance = t.allowance ∧
      SameRoles t t' := by
  unfold burned at h
  split at h
  · rename_i hc
    obtain rfl := Option.some.inj h
    exact ⟨hc.2, rfl, rfl, rfl, rfl⟩
  · cases h

theorem ne_zero_of_minted (h : t.minted a n = some t') : a ≠ zeroAddress := by
  unfold minted at h
  split at h
  · rename_i hc
    exact hc.1
  · cases h

theorem ne_zero_of_burned (h : t.burned a n = some t') : a ≠ zeroAddress := by
  unfold burned at h
  split at h
  · rename_i hc
    exact hc.1
  · cases h

/-- A transfer between ordinary accounts that the sender can cover goes through. -/
theorem exists_transferred (ha : a ≠ zeroAddress) (hb : b ≠ zeroAddress)
    (hn : n ≤ t.ledger.bal a) : ∃ t', t.transferred a b n = some t' :=
  ⟨_, dif_pos ⟨ha, hb, hn⟩⟩

theorem exists_minted (ha : a ≠ zeroAddress) (hn : t.ledger.supply + n < 2 ^ 256) :
    ∃ t', t.minted a n = some t' :=
  ⟨_, dif_pos ⟨ha, hn⟩⟩

theorem exists_burned (ha : a ≠ zeroAddress) (hn : n ≤ t.ledger.bal a) :
    ∃ t', t.burned a n = some t' :=
  ⟨_, dif_pos ⟨ha, hn⟩⟩

theorem approved_some (h : t.approved a b n = some t') :
    t'.ledger = t.ledger ∧ SameRoles t t' ∧
      ∀ x y, t'.allowance x y = if x = a ∧ y = b then n else t.allowance x y := by
  unfold approved at h
  split at h
  · obtain rfl := Option.some.inj h
    refine ⟨rfl, ⟨rfl, rfl⟩, fun x y => ?_⟩
    by_cases hx : x = a
    · subst hx
      simp [Function.update_apply]
    · simp [hx]
  · cases h

theorem spendAllowance_some (h : t.spendAllowance a b n = some t') :
    n ≤ t.allowance a b ∧ t'.ledger = t.ledger ∧ SameRoles t t' ∧
      ∀ x y, t'.allowance x y =
        if x = a ∧ y = b then t.allowance a b - n else t.allowance x y := by
  unfold spendAllowance at h
  split at h
  · exact ⟨‹_›, approved_some h⟩
  · cases h

/-- **What a call can do**: its effect is one authorised booking at most, the roles stay, and
allowances only grow for the caller's own tokens, by an approval. -/
structure Executed (t : OzToken) (contract caller : Address) (m : Method) (r : OzResult) :
    Prop where
  effect : Effect t contract caller r
  roles : SameRoles t r.token
  allowance_le : ∀ x y, x ≠ caller ∨ m ≠ .approve →
    r.token.allowance x y ≤ t.allowance x y

private theorem executed_view {ret : List UInt8} : Executed t self caller m ⟨t, ret, []⟩ :=
  ⟨.silent rfl (by simp), ⟨rfl, rfl⟩, fun _ _ _ => le_refl _⟩

private theorem allowance_le_of_spent {x y : Address}
    (h : ∀ x y, t'.allowance x y = if x = a ∧ y = b then t.allowance a b - n
      else t.allowance x y) : t'.allowance x y ≤ t.allowance x y := by
  rw [h x y]
  split
  · rename_i hxy
    rw [hxy.1, hxy.2]
    exact Nat.sub_le ..
  · exact le_refl _

theorem exec_spec (h : t.exec self caller m args = some r) : Executed t self caller m r := by
  unfold exec at h
  split at h
  all_goals simp only [Option.bind_eq_bind, Option.bind_eq_some_iff, Option.pure_def,
    Option.some.injEq, reduceCtorEq, Option.guard_eq_some'] at h
  -- the three views
  · obtain rfl := h
    exact executed_view
  · obtain rfl := h
    exact executed_view
  · obtain rfl := h
    exact executed_view
  · -- transfer
    rename_i recipient n
    obtain ⟨t', ht, rfl⟩ := h
    obtain ⟨hn, hl, ha, hr⟩ := transferred_some ht
    exact ⟨.booked (.move caller recipient n) (.inl rfl) hn hl [] rfl (by simp), hr,
      fun x y _ => le_of_eq (by rw [ha])⟩
  · -- transferFrom
    rename_i owner recipient n
    obtain ⟨t', ht, t'', hs, rfl⟩ := h
    obtain ⟨hn, hl, ha, hr⟩ := transferred_some ht
    obtain ⟨hle, hl', hr', ha'⟩ := spendAllowance_some hs
    rw [ha] at hle ha'
    exact ⟨.booked (.move owner recipient n) (.inr hle) hn (hl'.trans hl) [_] rfl
        (by simp), ⟨hr'.1.trans hr.1, hr'.2.trans hr.2⟩, fun x y _ => allowance_le_of_spent ha'⟩
  · -- approve
    rename_i spender n
    obtain ⟨t', ht, rfl⟩ := h
    obtain ⟨hl, hr, ha⟩ := approved_some ht
    refine ⟨.silent hl (by simp), hr, fun x y hxy => ?_⟩
    rw [ha x y, if_neg fun hx => hxy.elim (fun h => h hx.1) fun h => h rfl]
  · -- mint
    rename_i recipient n
    obtain ⟨_, hm, t', ht, rfl⟩ := h
    obtain ⟨hl, ha, hr⟩ := minted_some ht
    exact ⟨.booked (.mint recipient n) hm trivial hl [] rfl (by simp), hr,
      fun x y _ => le_of_eq (by rw [ha])⟩
  · -- burn
    rename_i n
    obtain ⟨t', ht, rfl⟩ := h
    obtain ⟨hn, hl, ha, hr⟩ := burned_some ht
    exact ⟨.booked (.burn caller n) (.inl rfl) hn hl [] rfl (by simp), hr,
      fun x y _ => le_of_eq (by rw [ha])⟩
  · -- burnFrom
    rename_i owner n
    obtain ⟨t', hs, t'', ht, rfl⟩ := h
    obtain ⟨hle, hl', hr', ha'⟩ := spendAllowance_some hs
    obtain ⟨hn, hl, ha, hr⟩ := burned_some ht
    rw [hl'] at hn hl
    exact ⟨.booked (.burn owner n) (.inr (.inl hle)) hn hl [] rfl (by simp),
      ⟨hr.1.trans hr'.1, hr.2.trans hr'.2⟩,
      fun x y _ => (le_of_eq (by rw [ha])).trans (allowance_le_of_spent ha')⟩
  · -- burnCoins
    rename_i owner n
    obtain ⟨_, hb, t', ht, rfl⟩ := h
    obtain ⟨hn, hl, ha, hr⟩ := burned_some ht
    exact ⟨.booked (.burn owner n) (.inr (.inr hb)) hn hl [] rfl (by simp), hr,
      fun x y _ => le_of_eq (by rw [ha])⟩

theorem address_entryLog (e : Ledger.Entry Address) : (entryLog self e).address = self := by
  cases e <;> rfl

/-- Every log of a call is the token's own. -/
theorem Effect.address_logs (h : Effect t self caller r) : ∀ log ∈ r.logs, log.address = self := by
  cases h with
  | silent _ hlogs =>
    intro log hlog
    obtain ⟨owner, spender, n, rfl⟩ := hlogs log hlog
    rfl
  | booked e _ _ _ rest hlogs hrest =>
    intro log hlog
    rw [hlogs] at hlog
    rcases List.mem_cons.mp hlog with rfl | hlog
    · exact address_entryLog e
    · obtain ⟨owner, spender, n, rfl⟩ := hrest log hlog
      rfl

/-! ### The calls the module makes -/

theorem exec_mint_iff : t.exec self caller .mint [.address a, .uint256 n] = some r ↔
    t.minter caller = true ∧ ∃ t', t.minted a n = some t' ∧
      ⟨t', [], [transferLog self zeroAddress a n]⟩ = r := by
  simp only [exec, Option.bind_eq_bind, Option.bind_eq_some_iff, Option.pure_def,
    Option.some.injEq, Option.guard_eq_some', exists_and_left, exists_const]

theorem exec_burn_iff : t.exec self caller .burn [.uint256 n] = some r ↔
    ∃ t', t.burned caller n = some t' ∧
      ⟨t', [], [transferLog self caller zeroAddress n]⟩ = r := by
  simp only [exec, Option.bind_eq_bind, Option.bind_eq_some_iff, Option.pure_def,
    Option.some.injEq]

theorem exec_burnCoins_iff : t.exec self caller .burnCoins [.address a, .uint256 n] = some r ↔
    t.burner caller = true ∧ ∃ t', t.burned a n = some t' ∧
      ⟨t', [], [transferLog self a zeroAddress n]⟩ = r := by
  simp only [exec, Option.bind_eq_bind, Option.bind_eq_some_iff, Option.pure_def,
    Option.some.injEq, Option.guard_eq_some', exists_and_left, exists_const]

theorem exec_transfer_iff : t.exec self caller .transfer [.address a, .uint256 n] = some r ↔
    ∃ t', t.transferred caller a n = some t' ∧
      ⟨t', word 1, [transferLog self caller a n]⟩ = r := by
  simp only [exec, Option.bind_eq_bind, Option.bind_eq_some_iff, Option.pure_def,
    Option.some.injEq]

end Steps

end OzToken

end GenesisEthermint.Tokens
