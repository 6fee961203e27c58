import GenesisEthermint.Tokens.Conformance

/-!
# What the Module Relies On

The token standard says what a call does if it succeeds. A conversion that has to succeed needs
more: that the module's own token burns what it is told to burn, and that a third party's token
lets ordinary accounts send what they have. The OpenZeppelin token does both.
-/

namespace GenesisEthermint.Tokens

open GenesisEthermint.Foundation GenesisEthermint.Types GenesisEthermint.Chain
open GenesisEthermint.Intrarelayer

section Laws

variable {W : Type} (k : Keeper W) (c : Address)

/-- **The token serves the module.** It burns the module's tokens and, for the module, those of
anybody else, and nobody but the module can create any. -/
structure Serves (book : W → Ledger Address) (Sound : W → Prop) : Prop where
  covered : ∀ {w}, Sound w → (book w).Covered
  supply_le : ∀ {w accounts msg res}, Sound w →
    k.evm.applyMessage w accounts msg = .ok res → ¬ FromModuleTo k c msg →
    (book res.world).supply ≤ (book w).supply
  burn : ∀ {w accounts nonce n}, Sound w → accounts k.moduleAddress.bytes = some nonce →
    n ≤ (book w).bal k.moduleAddress →
    ∃ res, k.evm.applyMessage w accounts
        ⟨k.moduleAddress, some c, nonce, .call .burn [.uint256 n]⟩ = .ok res ∧
      res.failed = false ∧ Sound res.world ∧
      book res.world = (book w).burn k.moduleAddress n
  burnCoins : ∀ {w accounts nonce a n}, Sound w → accounts k.moduleAddress.bytes = some nonce →
    a ≠ zeroAddress → n ≤ (book w).bal a →
    ∃ res, k.evm.applyMessage w accounts
        ⟨k.moduleAddress, some c, nonce, .call .burnCoins [.address a, .uint256 n]⟩ = .ok res ∧
      res.failed = false ∧ Sound res.world ∧ book res.world = (book w).burn a n

/-- **The token honours everybody's transfers**: an ordinary account can send what it has to any
other. `Honours` is the case of the module. -/
def HonoursAll (book : W → Ledger Address) (Sound : W → Prop) : Prop :=
  ∀ {w accounts sender nonce recipient n}, Sound w → accounts sender.bytes = some nonce →
    sender ≠ zeroAddress → recipient ≠ zeroAddress → n ≤ (book w).bal sender →
    ∃ res, k.evm.applyMessage w accounts
        ⟨sender, some c, nonce, .call .transfer [.address recipient, .uint256 n]⟩ = .ok res ∧
      res.failed = false ∧ res.ret = word 1

end Laws

/-! ## The OpenZeppelin token -/

namespace OzToken

variable {t t' : OzToken} {self guard : Address} {calls : List Invocation} {logs : List Log}

/-- `guard` is the only account that may create tokens, and may burn anybody's. -/
structure ServedBy (guard : Address) (t : OzToken) : Prop where
  minter : t.OnlyMinter guard
  burner : t.burner guard = true

/-- What every call keeps, a list of calls keeps. -/
theorem execAll_preserves {P : OzToken → Prop}
    (hP : ∀ {t caller m args r}, P t → t.exec self caller m args = some r → P r.token)
    (ht : P t) (h : execAll self t calls = some (t', logs)) : P t' := by
  induction calls generalizing t logs with
  | nil =>
    obtain ⟨rfl, -⟩ := execAll_nil_iff.mp h
    exact ht
  | cons i rest ih =>
    obtain ⟨r, hr, logs', hrest, rfl⟩ := execAll_cons_iff.mp h
    exact ih (hP ht hr) hrest

theorem Executed.servedBy {caller : Address} {m : Method} {r : OzResult}
    (h : Executed t self caller m r) (hg : ServedBy guard t) : ServedBy guard r.token where
  minter := h.onlyMinter hg.minter
  burner := h.roles.2 ▸ hg.burner

end OzToken

namespace OzContract

variable {W : Type} {k : Keeper W} {c : Address} {token : W → OzToken} {Sound : W → Prop}

/-- What every call of the token keeps can be made part of soundness. -/
theorem restrict {P : OzToken → Prop} (h : OzContract k c token Sound)
    (hP : ∀ {t caller m args r}, P t → t.exec c caller m args = some r → P r.token) :
    OzContract k c token (fun w => Sound w ∧ P (token w)) where
  reverted := fun hs happ hf => by
    obtain ⟨hsound, htok⟩ := h.reverted hs.1 happ hf
    exact ⟨⟨hsound, htok ▸ hs.2⟩, htok⟩
  called := fun hs hm happ => by
    obtain ⟨hsound, ⟨hf, hnone⟩ | ⟨r, hr, hf, htok, hret, hlogs⟩⟩ := h.called hs.1 hm happ
    · have htok := (h.reverted hs.1 happ hf).2
      exact ⟨⟨hsound, htok ▸ hs.2⟩, .inl ⟨hf, hnone⟩⟩
    · exact ⟨⟨hsound, htok ▸ hP hs.2 hr⟩, .inr ⟨r, hr, hf, htok, hret, hlogs⟩⟩
  others := fun hs happ hf hm => by
    obtain ⟨hsound, calls, hc, hexec⟩ := h.others hs.1 happ hf hm
    exact ⟨⟨hsound, OzToken.execAll_preserves hP hs.2 hexec⟩, calls, hc, hexec⟩

/-- The worlds in which the token serves the module. -/
def Serving (k : Keeper W) (token : W → OzToken) (Sound : W → Prop) (w : W) : Prop :=
  (Sound w ∧ (token w).ServedBy k.moduleAddress) ∧ (token w).Guarded k.moduleAddress

theorem restrict_servedBy (h : OzContract k c token Sound) :
    OzContract k c token (fun w => Sound w ∧ (token w).ServedBy k.moduleAddress) :=
  h.restrict fun ht hr => (OzToken.exec_spec hr).servedBy ht

theorem eip20_serving (h : OzContract k c token Sound) :
    Eip20 k c (fun w => (token w).ledger) (Serving k token Sound) :=
  h.restrict_servedBy.eip20

/-- A call by the module that the token executes goes through. -/
private theorem served {w : W} {accounts : Accounts} {nonce : ℕ} {m : Method}
    {args : List AbiArg} {r : OzResult} (h : OzContract k c token Sound)
    (hans : Answers k c Sound) (hs : Serving k token Sound w)
    (hnonce : accounts k.moduleAddress.bytes = some nonce) (hm : m ≠ .approve)
    (hexec : (token w).exec c k.moduleAddress m args = some r) :
    ∃ res, k.evm.applyMessage w accounts ⟨k.moduleAddress, some c, nonce, .call m args⟩ = .ok res ∧
      res.failed = false ∧ Serving k token Sound res.world ∧ token res.world = r.token := by
  obtain ⟨res, happ, hf, hsound, htok, -⟩ := h.answered hans hs.1.1 (fun _ => hm) hnonce hexec
  have hspec := OzToken.exec_spec hexec
  exact ⟨res, happ, hf, ⟨⟨hsound, htok ▸ hspec.servedBy hs.1.2⟩,
    htok ▸ hspec.guarded hs.2 (.inr hm)⟩, htok⟩

/-- **An OpenZeppelin contract serves the module** that holds its roles. -/
theorem serves (h : OzContract k c token Sound) (hans : Answers k c Sound)
    (hzero : k.moduleAddress ≠ zeroAddress) :
    Serves k c (fun w => (token w).ledger) (Serving k token Sound) where
  covered := fun {w} _ => (token w).covered
  supply_le := fun hs happ hm =>
    (h.others_supply_le ⟨hs.1.1, hs.1.2.minter⟩ happ hm).2
  burn := fun {w _ _ n} hs hnonce hn => by
    obtain ⟨t', ht⟩ := OzToken.exists_burned hzero hn
    have hexec : (token w).exec c k.moduleAddress .burn [.uint256 n] = some _ :=
      OzToken.exec_burn_iff.mpr ⟨t', ht, rfl⟩
    obtain ⟨res, happ, hf, hs', htok⟩ := served h hans hs hnonce (by decide) hexec
    refine ⟨res, happ, hf, hs', ?_⟩
    rw [htok]
    exact (OzToken.burned_some ht).2.1
  burnCoins := fun {w _ _ a n} hs hnonce ha hn => by
    obtain ⟨t', ht⟩ := OzToken.exists_burned ha hn
    have hexec : (token w).exec c k.moduleAddress .burnCoins [.address a, .uint256 n] = some _ :=
      OzToken.exec_burnCoins_iff.mpr ⟨hs.1.2.burner, t', ht, rfl⟩
    obtain ⟨res, happ, hf, hs', htok⟩ := served h hans hs hnonce (by decide) hexec
    refine ⟨res, happ, hf, hs', ?_⟩
    rw [htok]
    exact (OzToken.burned_some ht).2.1

/-- **An OpenZeppelin contract honours everybody's transfers.** -/
theorem honoursAll (h : OzContract k c token Sound) (hans : Answers k c Sound) :
    HonoursAll k c (fun w => (token w).ledger) Sound := by
  intro w accounts sender nonce recipient n hs hnonce hsender hrec hn
  obtain ⟨t', ht⟩ := OzToken.exists_transferred hsender hrec hn
  obtain ⟨res, happ, hf, -, -, hret⟩ := h.answered hans hs (fun _ => by decide) hnonce
    (OzToken.exec_transfer_iff.mpr ⟨t', ht, rfl⟩)
  exact ⟨res, happ, hf, hret⟩

end OzContract

end GenesisEthermint.Tokens
