import GenesisEthermint.Registry.Bijection

/-!
# Deployments

The module account's sequence is read twice for a deployment, once for the address that the pair
stores and once for the message, and it is written by the EVM and by the keeper. Followed over
whole runs, it goes up by one with every message of the module account that the EVM took, and by
nothing else. So the stored address is where the EVM put the contract, and no two deployments
share one. Sequences do not wrap here: in the source this is about the first `2 ^ 64` messages.
-/

namespace GenesisEthermint.Registry

open GenesisEthermint.Foundation GenesisEthermint.Types GenesisEthermint.Chain
open GenesisEthermint.Intrarelayer GenesisEthermint.Tokens

variable {W : Type}

/-- The sequence of the module account. -/
def moduleNonce (k : Keeper W) (s : State W) : Option ℕ := s.accounts k.moduleAddress.bytes

/-! ## What the machine does with sequences -/

/-- A reading of the world that counts the messages of the module account the machine took, and
the machine's part in the account's sequence: messages of others leave it alone. -/
structure CountsCalls (k : Keeper W) (calls : W → ℕ) : Prop where
  own : ∀ {w accounts msg res}, k.evm.applyMessage w accounts msg = .ok res →
    msg.sender = k.moduleAddress → calls res.world = calls w + 1
  other : ∀ {w accounts msg res}, k.evm.applyMessage w accounts msg = .ok res →
    msg.sender ≠ k.moduleAddress → calls res.world = calls w ∧
      res.accounts k.moduleAddress.bytes = accounts k.moduleAddress.bytes

/-- A contract was created at `a`, and nowhere else. -/
def CreatedAt (hasCode : W → Address → Bool) (w w' : W) (a : Address) : Prop :=
  hasCode w a = false ∧ hasCode w' a = true ∧ ∀ b, b ≠ a → hasCode w' b = hasCode w b

/-- `evm.Create`: the contract is put at the address of the creator and the sequence that the
creator has in the EVM's own state. -/
def CreatesAtNonce (k : Keeper W) (hasCode : W → Address → Bool) : Prop :=
  ∀ {w accounts sender nonce name symbol res},
    k.evm.applyMessage w accounts ⟨sender, none, nonce, .create name symbol⟩ = .ok res →
    res.failed = false → accounts sender.bytes = some nonce →
    CreatedAt hasCode w res.world (k.createAddress sender nonce)

section Steps

variable {k : Keeper W} {calls : W → ℕ}

/-- The sequence went up by the number of calls that were completed. -/
def Advances (k : Keeper W) (calls : W → ℕ) (s t : State W) : Prop :=
  ∀ n, moduleNonce k s = some n →
    ∃ d, moduleNonce k t = some (n + d) ∧ calls t.evm = calls s.evm + d

instance : Std.Refl (Advances k calls) := ⟨fun _ _ hn => ⟨0, hn, rfl⟩⟩

instance : IsTrans (State W) (Advances k calls) where
  trans s t u hst htu n hn := by
    obtain ⟨d, ht, hd⟩ := hst n hn
    obtain ⟨e, hu, he⟩ := htu _ ht
    exact ⟨d + e, by rw [hu, Nat.add_assoc], by rw [he, hd, Nat.add_assoc]⟩

/-- What touches neither the sequence nor the world advances nothing. -/
private theorem advances_of_same {s t : State W} (ha : moduleNonce k t = moduleNonce k s)
    (he : t.evm = s.evm) : Advances k calls s t :=
  fun _ hn => ⟨0, ha.trans hn, congrArg calls he⟩

theorem bankKeeps_advances : BankKeeps (Advances k calls) where
  setLedger _ _ _ := advances_of_same rfl rfl
  ensureAccount s a := by
    intro n hn
    refine ⟨0, ?_, by rw [State.ensureAccount_evm]; rfl⟩
    have hexists : ¬ (k.moduleAddress.bytes = a ∧ s.accounts a = none) := by
      rintro ⟨ha, hnone⟩
      rw [moduleNonce, ha, hnone] at hn
      cases hn
    rw [moduleNonce, State.accounts_ensureAccount, if_neg hexists]
    exact hn

theorem moduleKeeps_advances : ModuleKeeps (Advances k calls) where
  registry _ _ := advances_of_same rfl rfl
  setMetadata _ _ := advances_of_same rfl rfl

/-- **A completed call.** The keeper's `SetNonce` has the last word, whether the execution went
well or not. -/
theorem evmKeeps_advances (hcalls : CountsCalls k calls) : EvmKeeps k (Advances k calls) where
  committed {s sender target data res t} h := by
    obtain ⟨nonce, hnonce, happ, rfl⟩ := h
    intro n hn
    by_cases hown : sender = k.moduleAddress
    · subst hown
      obtain rfl := Option.some.inj (hnonce.symm.trans hn)
      exact ⟨1, Function.update_self .., hcalls.own happ rfl⟩
    · obtain ⟨hsame, hacc⟩ := hcalls.other happ hown
      refine ⟨0, ?_, hsame⟩
      have hne : k.moduleAddress.bytes ≠ sender.bytes := fun heq => hown (Address.ext heq).symm
      exact (Function.update_of_ne hne _ _).trans (hacc.trans hn)

/-- Nobody signs for the module account. -/
def NotOwn (k : Keeper W) : Op → Prop
  | .ethereumTx msg => msg.sender ≠ k.moduleAddress
  | _ => True

/-- **One operation**, however it ends. -/
theorem advances_exec (hcalls : CountsCalls k calls) {op : Op} (hop : NotOwn k op) :
    Exec.Relates (Advances k calls) (op.exec k) := by
  have hb : BankKeeps (Advances k calls) := bankKeeps_advances
  have hm : ModuleKeeps (Advances k calls) := moduleKeeps_advances
  have he : EvmKeeps k (Advances k calls) := evmKeeps_advances hcalls
  cases op with
  | registerCoin metadata => exact Exec.relates_discard (relates_registerCoin hm he metadata)
  | registerERC20 contract => exact relates_registerERC20 hm he contract
  | toggleRelay token => exact Exec.relates_discard (relates_toggleRelay hm token)
  | updateTokenPairERC20 old new =>
    exact Exec.relates_discard (relates_updateTokenPairERC20 hm he old new)
  | convertCoin msg => exact relates_convertCoin k hb he msg
  | convertERC20 msg => exact relates_convertERC20 k hb he msg
  | ethereumTx msg =>
    -- the message of somebody else, and then the hook's calls
    refine relates_applyTransaction_of k hb he fun s res happ n hn => ?_
    obtain ⟨hsame, hacc⟩ := hcalls.other happ hop
    exact ⟨0, hacc.trans hn, hsame⟩
  | bankSend msg => exact relates_send hb k msg
  | setParams params => exact Exec.relates_modify fun _ => advances_of_same rfl rfl

end Steps

/-! ## Runs -/

/-- An operation, with what becomes of its writes when it fails. -/
structure Attempt where
  op : Op
  rolledBack : Bool

/-- Run one operation. -/
def attemptStep (k : Keeper W) (s : State W) (a : Attempt) : State W :=
  if a.rolledBack then step k s a.op else Exec.after (a.op.exec k s)

variable {k : Keeper W} {calls : W → ℕ} {hasCode : W → Address → Bool}

/-- An operation that succeeds leaves the same either way. -/
theorem attemptStep_of_ok {s t : State W} {a : Attempt} {u : Unit}
    (h : a.op.exec k s = .ok u t) : attemptStep k s a = t := by
  unfold attemptStep
  split
  · exact Exec.deliver_of_ok h
  · rw [h]
    rfl

theorem advances_attemptStep (hcalls : CountsCalls k calls) {s : State W} {a : Attempt}
    (ha : NotOwn k a.op) : Advances k calls s (attemptStep k s a) := by
  unfold attemptStep
  split
  · rcases Exec.deliver_cases (a.op.exec k) s with ⟨u, hok⟩ | hfail
    · exact (advances_exec hcalls ha).of_ok hok
    · rw [step, hfail]
      exact Std.Refl.refl s
  · exact advances_exec hcalls ha s

/-- **The sequence over a run.** -/
theorem advances_run (hcalls : CountsCalls k calls) (s : State W) (ops : List Attempt)
    (hown : ∀ a ∈ ops, NotOwn k a.op) : Advances k calls s (run (attemptStep k) s ops) :=
  run_related (R := Advances k calls) (C := fun _ a => NotOwn k a.op)
    (fun _ _ ha => advances_attemptStep hcalls ha)
    (along_of_mem (E := fun a : Attempt => NotOwn k a.op) hown)

/-- The registration of a coin succeeded, as this operation of the run, with this pair. -/
structure Registers (k : Keeper W) (s₀ : State W) (ops before after : List Attempt)
    (m : Metadata) (p : TokenPair) (t : State W) : Prop where
  position : ∃ rolledBack, ops = before ++ ⟨.registerCoin m, rolledBack⟩ :: after
  succeeded : registerCoin k m (run (attemptStep k) s₀ before) = .ok p t

/-- A successful registration used up the sequence that its address was computed from. -/
theorem Registers.nonce {s₀ t : State W} {ops before after : List Attempt} {m : Metadata}
    {p : TokenPair} (h : Registers k s₀ ops before after m p t) :
    ∃ nonce, moduleNonce k (run (attemptStep k) s₀ before) = some nonce ∧
      p.getERC20Contract = k.createAddress k.moduleAddress nonce ∧
      moduleNonce k t = some (nonce + 1) ∧
      run (attemptStep k) s₀ ops = run (attemptStep k) t after := by
  obtain ⟨nonce, res, hn, rfl, -, -, -, hnext⟩ := registerCoin_deployed h.succeeded
  refine ⟨nonce, hn, hexToAddress_hex .., hnext, ?_⟩
  obtain ⟨rolledBack, rfl⟩ := h.position
  have hstep : attemptStep k (run (attemptStep k) s₀ before) ⟨.registerCoin m, rolledBack⟩ = t :=
    attemptStep_of_ok (a := ⟨.registerCoin m, rolledBack⟩) (u := ())
      (Exec.bind_of_ok h.succeeded)
  rw [run_append, run_cons, hstep]

/-- A later registration of the run comes after the first one left its state. -/
private theorem Registers.later {s₀ t t' : State W} {ops before after before' after' : List Attempt}
    {m m' : Metadata} {p p' : TokenPair} (h : Registers k s₀ ops before after m p t)
    (h' : Registers k s₀ ops before' after' m' p' t') (hlt : before.length < before'.length) :
    ∃ mid, (∀ a ∈ mid, a ∈ ops) ∧
      run (attemptStep k) s₀ before' = run (attemptStep k) t mid := by
  obtain ⟨rolledBack, hops⟩ := h.position
  obtain ⟨rolledBack', hops'⟩ := h'.position
  have hstep : attemptStep k (run (attemptStep k) s₀ before) ⟨.registerCoin m, rolledBack⟩ = t :=
    attemptStep_of_ok (a := ⟨.registerCoin m, rolledBack⟩) (u := ())
      (Exec.bind_of_ok h.succeeded)
  -- of two prefixes of one run the shorter comes first
  rcases List.append_eq_append_iff.mp (hops.symm.trans hops') with
    ⟨mid, hbefore, hmid⟩ | ⟨mid, hbefore, -⟩
  · cases mid with
    | nil =>
      rw [hbefore, List.append_nil] at hlt
      exact absurd hlt (Nat.lt_irrefl _)
    -- the run goes on after the first registration, which is the head of what is between them
    | cons a mid =>
      obtain ⟨rfl, rfl⟩ := List.cons.inj hmid
      refine ⟨mid, fun a ha => ?_, ?_⟩
      · rw [hops]
        simp [ha]
      · rw [hbefore, run_append, run_cons, hstep]
  · rw [hbefore, List.length_append] at hlt
    omega

/-- **Deployment addresses over whole runs.** Every completed call of the module account
advances its sequence by one, and over any stretch of a run the sequence goes up by the number
of such calls. Each successful registration of a coin stores the address at which the EVM
created the contract, and no two of them store the same. -/
theorem deployments_of_run (hcalls : CountsCalls k calls) (hcreate : CreatesAtNonce k hasCode)
    (s₀ : State W) {n₀ : ℕ} (h₀ : moduleNonce k s₀ = some n₀) {ops : List Attempt}
    (hown : ∀ a ∈ ops, NotOwn k a.op)
    (hinj : ∀ N, moduleNonce k (run (attemptStep k) s₀ ops) = some N →
      Set.InjOn (k.createAddress k.moduleAddress) (Set.Iio N)) :
    (∀ s t target data res, Committed k s k.moduleAddress target data res t →
      ∃ n, moduleNonce k s = some n ∧ moduleNonce k t = some (n + 1) ∧
        calls t.evm = calls s.evm + 1) ∧
    (∀ before after, ops = before ++ after → ∃ n d,
      moduleNonce k (run (attemptStep k) s₀ before) = some n ∧
      moduleNonce k (run (attemptStep k) s₀ ops) = some (n + d) ∧
      calls (run (attemptStep k) s₀ ops).evm =
        calls (run (attemptStep k) s₀ before).evm + d) ∧
    (∀ before after m p t, Registers k s₀ ops before after m p t →
      CreatedAt hasCode (run (attemptStep k) s₀ before).evm t.evm p.getERC20Contract) ∧
    (∀ before after m p t before' after' m' p' t',
      Registers k s₀ ops before after m p t → Registers k s₀ ops before' after' m' p' t' →
      before.length ≠ before'.length → p.getERC20Contract ≠ p'.getERC20Contract) := by
  have hdiffer : ∀ {before after m p t before' after' m' p' t'},
      Registers k s₀ ops before after m p t → Registers k s₀ ops before' after' m' p' t' →
      before.length < before'.length → p.getERC20Contract ≠ p'.getERC20Contract := by
    intro before after m p t before' after' m' p' t' h h' hlt heq
    obtain ⟨n, -, haddr, hnext, -⟩ := h.nonce
    obtain ⟨n', hn', haddr', hnext', hrest⟩ := h'.nonce
    obtain ⟨mid, hmem, hmid⟩ := h.later h' hlt
    -- from the first registration to the second one, and from there to the end
    obtain ⟨d, hd, -⟩ := advances_run hcalls t mid (fun a ha => hown a (hmem a ha)) _ hnext
    rw [← hmid, hn'] at hd
    obtain ⟨rolledBack, hops⟩ := h'.position
    obtain ⟨e, he, -⟩ := advances_run hcalls t' after'
      (fun a ha => hown a (by rw [hops]; simp [ha])) _ hnext'
    rw [← hrest] at he
    have hlt' : n < n' := by
      have := Option.some.inj hd
      omega
    have hsame := hinj _ he (Set.mem_Iio.mpr (by omega : n < n' + 1 + e))
      (Set.mem_Iio.mpr (by omega : n' < n' + 1 + e)) (haddr.symm.trans (heq.trans haddr'))
    omega
  refine ⟨?_, ?_, ?_, ?_⟩
  · intro s t target data res h
    obtain ⟨nonce, hnonce, happ, rfl⟩ := h
    exact ⟨nonce, hnonce, Function.update_self .., hcalls.own happ rfl⟩
  · rintro before after rfl
    obtain ⟨d, hd, -⟩ := advances_run hcalls s₀ before (fun a ha => hown a (by simp [ha])) _ h₀
    obtain ⟨e, he, hcount⟩ := advances_run hcalls _ after (fun a ha => hown a (by simp [ha])) _ hd
    rw [run_append]
    exact ⟨_, e, hd, he, hcount⟩
  · intro before after m p t h
    obtain ⟨nonce, res, hn, rfl, happ, hf, hevm, -⟩ := registerCoin_deployed h.succeeded
    rw [hevm, TokenPair.getERC20Contract, newTokenPair, hexToAddress_hex]
    exact hcreate happ hf hn
  · intro before after m p t before' after' m' p' t' h h' hne
    rcases Nat.lt_or_gt_of_ne hne with hlt | hlt
    · exact hdiffer h h' hlt
    · exact (hdiffer h' h hlt).symm

/-! ## A machine with a meter -/

/-- The machine, with a count of the messages it took from one account. -/
def metered (account : Address) (evm : Evm W) : Evm (W × ℕ) where
  applyMessage w accounts msg := (evm.applyMessage w.1 accounts msg).map fun res => {
    world := (res.world, w.2 + if msg.sender = account then 1 else 0)
    accounts := res.accounts
    vmError := res.vmError
    ret := res.ret
    logs := res.logs }

/-- A metered message is a message of the machine, counted. -/
theorem metered_ok {account : Address} {evm : Evm W} {w : W × ℕ} {accounts : Accounts}
    {msg : Message} {res : EvmResult (W × ℕ)}
    (h : (metered account evm).applyMessage w accounts msg = .ok res) :
    ∃ res', evm.applyMessage w.1 accounts msg = .ok res' ∧ res.world.1 = res'.world ∧
      res.world.2 = (w.2 + if msg.sender = account then 1 else 0) ∧
      res.accounts = res'.accounts ∧ res.failed = res'.failed := by
  rw [metered] at h
  cases hbase : evm.applyMessage w.1 accounts msg with
  | error e =>
    simp only [hbase] at h
    cases h
  | ok res' =>
    simp only [hbase] at h
    obtain rfl := Except.ok.inj h
    exact ⟨res', rfl, rfl, rfl, rfl, rfl⟩

/-- Every machine can be metered. -/
theorem countsCalls_metered (evm : Evm W) {k : Keeper (W × ℕ)}
    (hevm : k.evm = metered k.moduleAddress evm)
    (hother : ∀ {w accounts msg res}, evm.applyMessage w accounts msg = .ok res →
      msg.sender ≠ k.moduleAddress →
        res.accounts k.moduleAddress.bytes = accounts k.moduleAddress.bytes) :
    CountsCalls k Prod.snd := by
  refine ⟨fun happ hown => ?_, fun happ hne => ?_⟩
  · rw [hevm] at happ
    obtain ⟨res', -, -, hcount, -⟩ := metered_ok happ
    rw [hcount, if_pos hown]
  · rw [hevm] at happ
    obtain ⟨res', happ', -, hcount, hacc, -⟩ := metered_ok happ
    refine ⟨by rw [hcount, if_neg hne, Nat.add_zero], ?_⟩
    rw [hacc]
    exact hother happ' hne

/-! ### Two coins registered one after the other -/

/-- The keeper over the plain machine, metered. -/
def meteredKeeper : Keeper (TokenWorld × ℕ) := keeperOver (metered moduleAccount plainEvm)

/-- The address has a token. -/
def hasToken (w : TokenWorld × ℕ) (a : Address) : Bool := (w.1 a).isSome

/-- The metadata of a coin with a single unit. -/
def coinMetadata (denom : String) : Metadata :=
  ⟨"a coin", [⟨denom, 0, []⟩], denom, denom, denom, denom⟩

/-- Two coins, and a contract without code in between, whose registration fails and is not
rolled back. -/
def twoCoins : List Attempt := [
  ⟨.registerCoin (coinMetadata "bcoin"), true⟩,
  ⟨.registerERC20 bob, false⟩,
  ⟨.registerCoin (coinMetadata "ccoin"), true⟩]

/-- The chain before any registration. -/
def freshState : State (TokenWorld × ℕ) := referenceState (referenceWorld, 0)

private theorem accounts_plainEvm {w : TokenWorld} {accounts : Accounts} {msg : Message}
    {res : EvmResult TokenWorld} {a : Address}
    (h : plainEvm.applyMessage w accounts msg = .ok res) (hne : msg.sender ≠ a) :
    res.accounts a.bytes = accounts a.bytes := by
  have hbytes : a.bytes ≠ msg.sender.bytes := fun heq => hne (Address.ext heq).symm
  simp only [plainEvm, referenceEvm] at h
  split at h
  · split at h <;> (obtain rfl := Except.ok.inj h; rfl)
  · split at h <;> (obtain rfl := Except.ok.inj h; rfl)
  · split at h
    · obtain rfl := Except.ok.inj h
      rfl
    · obtain rfl := Except.ok.inj h
      exact Function.update_of_ne hbytes _ _
  · obtain rfl := Except.ok.inj h
    rfl

private theorem createsAtNonce_meteredKeeper : CreatesAtNonce meteredKeeper hasToken := by
  intro w accounts sender nonce name symbol res happ hf _
  obtain ⟨res', happ', hworld, -, -, hfailed⟩ := metered_ok happ
  simp only [plainEvm, referenceEvm] at happ'
  split at happ'
  -- the address of the new contract depends on the sender and the nonce alone
  · -- a collision is a failure
    obtain rfl := Except.ok.inj happ'
    rw [hf] at hfailed
    simp [EvmResult.failed, reverted] at hfailed
  · rename_i hfree
    obtain rfl := Except.ok.inj happ'
    have hcreate : meteredKeeper.createAddress sender nonce =
        referenceCreateAddress sender nonce := rfl
    rw [hcreate]
    refine ⟨Bool.eq_false_iff.mpr hfree, ?_, fun b hb => ?_⟩
    · rw [hasToken, hworld]
      exact congrArg Option.isSome (Function.update_self _ _ w.1)
    · rw [hasToken, hworld]
      exact congrArg Option.isSome (Function.update_of_ne hb _ w.1)

/-- A registration in the run that moved the sequence went through. -/
private theorem exists_registers (before after : List Attempt) (denom : String)
    (hops : twoCoins = before ++ ⟨.registerCoin (coinMetadata denom), true⟩ :: after)
    (hmoved : moduleNonce meteredKeeper (Exec.deliver
        (registerCoin meteredKeeper (coinMetadata denom))
        (run (attemptStep meteredKeeper) freshState before)) ≠
      moduleNonce meteredKeeper (run (attemptStep meteredKeeper) freshState before)) :
    ∃ p t, Registers meteredKeeper freshState twoCoins before after (coinMetadata denom) p t := by
  obtain ⟨p, hok⟩ := Exec.ok_of_deliver_ne fun hsame => hmoved (congrArg _ hsame)
  exact ⟨p, _, ⟨true, hops⟩, hok⟩

theorem deployments_of_run_twoCoins :
    ∃ p t p' t',
      Registers meteredKeeper freshState twoCoins [] (twoCoins.drop 1) (coinMetadata "bcoin") p t ∧
      Registers meteredKeeper freshState twoCoins (twoCoins.take 2) [] (coinMetadata "ccoin")
        p' t' ∧
      CreatedAt hasToken (run (attemptStep meteredKeeper) freshState (twoCoins.take 2)).evm t'.evm
        p'.getERC20Contract ∧
      p.getERC20Contract ≠ p'.getERC20Contract := by
  have hmodule : meteredKeeper.moduleAddress = moduleAccount := moduleAddress_keeperOver _
  have hcalls : CountsCalls meteredKeeper Prod.snd :=
    countsCalls_metered plainEvm (by rw [hmodule]; rfl) fun happ hne =>
      accounts_plainEvm happ hne
  have hown : ∀ a ∈ twoCoins, NotOwn meteredKeeper a.op := by simp [twoCoins, NotOwn]
  -- three messages: two creations and the view call that found no code
  have hend : moduleNonce meteredKeeper (run (attemptStep meteredKeeper) freshState twoCoins) =
      some 3 := by decide +kernel
  have hinj : ∀ N, moduleNonce meteredKeeper (run (attemptStep meteredKeeper) freshState twoCoins) =
      some N → Set.InjOn (meteredKeeper.createAddress meteredKeeper.moduleAddress) (Set.Iio N) := by
    intro N hN m hm n hn heq
    obtain rfl := Option.some.inj (hend.symm.trans hN)
    have hall : ∀ m < 3, ∀ n < 3, referenceCreateAddress moduleAccount m =
        referenceCreateAddress moduleAccount n → m = n := by decide +kernel
    exact hall m hm n hn (by rw [hmodule] at heq; exact heq)
  obtain ⟨p, t, hp⟩ := exists_registers [] (twoCoins.drop 1) "bcoin" rfl
    (by decide +kernel)
  obtain ⟨p', t', hp'⟩ := exists_registers (twoCoins.take 2) [] "ccoin" rfl
    (by decide +kernel)
  obtain ⟨-, -, hcreated, hdiffer⟩ :=
    deployments_of_run hcalls createsAtNonce_meteredKeeper freshState rfl hown hinj
  exact ⟨p, t, p', t', hp, hp', hcreated _ _ _ _ _ hp',
    hdiffer _ _ _ _ _ _ _ _ _ _ hp hp' (by decide)⟩

end GenesisEthermint.Registry
