import GenesisEthermint.Intrarelayer.TokenPairs

/-!
# Calls into the EVM

The keeper's three ways to call a contract: with raw payload, with a packed method, and the
three view calls that read an ERC20's details. Every one of them is a committed message, so
even a view call advances the caller's nonce.
-/

namespace GenesisEthermint.Intrarelayer

open GenesisEthermint.Foundation GenesisEthermint.Types GenesisEthermint.Chain

variable {W : Type} (k : Keeper W)

/-- `accountKeeper.GetSequence`. -/
def getSequence (s : State W) (addr : AccAddress) : Except GoError ℕ :=
  match s.accounts addr with
  | none => .error (.wrap ErrUnknownAddress
      ("account " ++ k.accAddressString addr ++ " does not exist"))
  | some sequence => .ok sequence

/-- The state after a message came back: its world, its accounts, and the caller's nonce set
by `SetNonce(from, nonce+1)`. -/
def afterMessage (s : State W) (sender : Address) (nonce : ℕ) (res : EvmResult W) : State W :=
  { s with
    evm := res.world
    accounts := Function.update res.accounts sender.bytes (some (nonce + 1)) }

/-- `CallEVMWithPayload`; returns what the contract returned. -/
def callEVMWithPayload (sender : Address) (contract : Option Address) (data : Payload) :
    Exec GoError (State W) (List UInt8) := do
  let s ← get
  let nonce ← Exec.ofExcept (getSequence k s sender.bytes)
  let res ← Exec.ofExcept (k.evm.applyMessage s.evm s.accounts ⟨sender, contract, nonce, data⟩)
  modify fun s => afterMessage s sender nonce res
  -- the nonce has moved on, and the world is written, also when the execution failed
  Exec.failIf res.failed (.wrap ErrVMExecution res.vmError)
  return res.ret

/-- `CallEVM`. -/
def callEVM (abi : ABI) (sender contract : Address) (method : Method) (args : List AbiArg) :
    Exec GoError (State W) (List UInt8) := do
  let payload ← Exec.mapError
    (fun e => .wrap ErrWritingEthTxPayload
      (GoError.wrap e "failed to create transaction payload").error)
    (Exec.ofExcept (abi.pack method args))
  Exec.mapError
    (fun e => .errorf ("contract call failed: method '" ++ method.text ++ "' "
      ++ contract.hex k.keccak256 ++ ", " ++ e.error))
    (callEVMWithPayload k sender (some contract) payload)

/-- `types.ERC20Data`. -/
structure ERC20Data where
  name : String
  symbol : String
  decimals : ℕ
  deriving DecidableEq

/-- The wrapping of an unpacking error in `QueryERC20`. -/
def unpackField {α : Type} (field : String) (r : Except GoError α) :
    Exec GoError (State W) α :=
  Exec.mapError (fun e => .wrap ErrJSONUnmarshal ("failed to unpack " ++ field ++ ": " ++ e.error))
    (Exec.ofExcept r)

/-- `QueryERC20`. -/
def queryERC20 (contract : Address) : Exec GoError (State W) ERC20Data := do
  let res ← callEVM k erc20Burnable k.moduleAddress contract .name []
  let name ← unpackField "name" (unpackString res)
  let res ← callEVM k erc20Burnable k.moduleAddress contract .symbol []
  let symbol ← unpackField "symbol" (unpackString res)
  let res ← callEVM k erc20Burnable k.moduleAddress contract .decimals []
  let decimals ← unpackField "decimals" (unpackUint8 res)
  return ⟨name, symbol, decimals⟩

/-! ## What a call leaves -/

section

variable {k} {s t : State W} {sender contract : Address} {target : Option Address}
  {data : Payload} {ret : List UInt8} {res : EvmResult W} {nonce : ℕ}

/-- The message was applied in `s` with this result, and `t` is what was written. -/
def Committed (k : Keeper W) (s : State W) (sender : Address) (target : Option Address)
    (data : Payload) (res : EvmResult W) (t : State W) : Prop :=
  ∃ nonce, s.accounts sender.bytes = some nonce ∧
    k.evm.applyMessage s.evm s.accounts ⟨sender, target, nonce, data⟩ = .ok res ∧
    t = afterMessage s sender nonce res

@[simp] theorem afterMessage_params : (afterMessage s sender nonce res).params = s.params := rfl

@[simp] theorem afterMessage_registry :
    (afterMessage s sender nonce res).registry = s.registry := rfl

@[simp] theorem afterMessage_bank : (afterMessage s sender nonce res).bank = s.bank := rfl

@[simp] theorem afterMessage_evm : (afterMessage s sender nonce res).evm = res.world := rfl

@[simp] theorem afterMessage_config : (afterMessage s sender nonce res).config = s.config := rfl

/-- A message changes the world and the accounts, nothing else. -/
theorem Committed.config_eq (h : Committed k s sender target data res t) :
    t.config = s.config := by
  obtain ⟨_, -, -, rfl⟩ := h
  rfl

theorem Committed.bank_eq (h : Committed k s sender target data res t) : t.bank = s.bank := by
  obtain ⟨_, -, -, rfl⟩ := h
  rfl

theorem Committed.evm_eq (h : Committed k s sender target data res t) : t.evm = res.world := by
  obtain ⟨_, -, -, rfl⟩ := h
  rfl

theorem callEVMWithPayload_run (s : State W) : callEVMWithPayload k sender target data s =
    match getSequence k s sender.bytes with
    | .error e => .error (.error e) s
    | .ok nonce =>
      match k.evm.applyMessage s.evm s.accounts ⟨sender, target, nonce, data⟩ with
      | .error e => .error (.error e) s
      | .ok res =>
        if res.failed then
          .error (.error (.wrap ErrVMExecution res.vmError)) (afterMessage s sender nonce res)
        else .ok res.ret (afterMessage s sender nonce res) := by
  rw [callEVMWithPayload, Exec.get_bind, Exec.ofExcept_bind]
  cases getSequence k s sender.bytes with
  | error e => rfl
  | ok nonce =>
    simp only [Exec.ofExcept_bind]
    cases k.evm.applyMessage s.evm s.accounts ⟨sender, target, nonce, data⟩ with
    | error e => rfl
    | ok res =>
      simp only [Exec.modify_bind, Exec.failIf_bind]
      rfl

theorem getSequence_ok_iff {a : AccAddress} :
    getSequence k s a = .ok nonce ↔ s.accounts a = some nonce := by
  unfold getSequence
  cases s.accounts a <;> simp

/-- A payload call that succeeds is a committed message whose execution did not fail. -/
theorem callEVMWithPayload_ok_iff : callEVMWithPayload k sender target data s = .ok ret t ↔
    ∃ res, Committed k s sender target data res t ∧ res.failed = false ∧ ret = res.ret := by
  rw [callEVMWithPayload_run]
  constructor
  · intro h
    split at h
    · simp at h
    · rename_i nonce hn
      split at h
      · simp at h
      · rename_i res hres
        split at h
        · simp at h
        · rename_i hf
          simp only [EStateM.Result.ok.injEq] at h
          exact ⟨res, ⟨nonce, getSequence_ok_iff.mp hn, hres, h.2.symm⟩, by simpa using hf,
            h.1.symm⟩
  · rintro ⟨res, ⟨nonce, hn, hres, rfl⟩, hf, rfl⟩
    rw [getSequence_ok_iff.mpr hn]
    simp [hres, hf]

/-- A payload call that fails returns an error. Either nothing was written, or the message was
committed and its execution failed. -/
theorem callEVMWithPayload_error {f : Failure GoError}
    (h : callEVMWithPayload k sender target data s = .error f t) :
    (∃ e, f = .error e) ∧
      (t = s ∨ ∃ res, Committed k s sender target data res t ∧ res.failed = true) := by
  rw [callEVMWithPayload_run] at h
  split at h
  · simp only [EStateM.Result.error.injEq] at h
    exact ⟨⟨_, h.1.symm⟩, .inl h.2.symm⟩
  · rename_i nonce hn
    split at h
    · simp only [EStateM.Result.error.injEq] at h
      exact ⟨⟨_, h.1.symm⟩, .inl h.2.symm⟩
    · rename_i res hres
      split at h
      · rename_i hf
        simp only [EStateM.Result.error.injEq] at h
        exact ⟨⟨_, h.1.symm⟩, .inr ⟨res, ⟨nonce, getSequence_ok_iff.mp hn, hres, h.2.symm⟩, hf⟩⟩
      · simp at h

variable {abi : ABI} {method : Method} {args : List AbiArg}

private theorem callEVM_of_pack (hp : abi.pack method args = .ok data) :
    callEVM k abi sender contract method args s =
      Exec.mapError
        (fun e => .errorf ("contract call failed: method '" ++ method.text ++ "' "
          ++ contract.hex k.keccak256 ++ ", " ++ e.error))
        (callEVMWithPayload k sender (some contract) data) s := by
  rw [callEVM, hp]
  rfl

theorem callEVM_ok_iff (hp : abi.pack method args = .ok data) :
    callEVM k abi sender contract method args s = .ok ret t ↔
      ∃ res, Committed k s sender (some contract) data res t ∧ res.failed = false ∧
        ret = res.ret := by
  rw [callEVM_of_pack hp, Exec.mapError_ok_iff, callEVMWithPayload_ok_iff]

/-- A packed call that fails reports which contract call failed. -/
theorem callEVM_error {f : Failure GoError} (hp : abi.pack method args = .ok data)
    (h : callEVM k abi sender contract method args s = .error f t) :
    (∃ msg, f = .error (.errorf msg)) ∧
      (t = s ∨ ∃ res, Committed k s sender (some contract) data res t ∧ res.failed = true) := by
  rw [callEVM_of_pack hp] at h
  rcases Exec.mapError_error_iff.mp h with ⟨e, rfl, hcall⟩ | ⟨m, rfl, hcall⟩
  · exact ⟨⟨_, rfl⟩, (callEVMWithPayload_error hcall).2⟩
  · obtain ⟨⟨e, he⟩, -⟩ := callEVMWithPayload_error hcall
    simp at he

/-- A query that succeeds is three committed view calls by the module. -/
theorem queryERC20_ok {details : ERC20Data} (h : queryERC20 k contract s = .ok details t) :
    ∃ r₁ v₁ r₂ v₂ r₃,
      Committed k s k.moduleAddress (some contract) (.call .name []) r₁ v₁ ∧
      Committed k v₁ k.moduleAddress (some contract) (.call .symbol []) r₂ v₂ ∧
      Committed k v₂ k.moduleAddress (some contract) (.call .decimals []) r₃ t := by
  simp only [queryERC20, unpackField, Exec.bind_ok_iff, Exec.mapError_ok_iff,
    Exec.ofExcept_ok_iff, Exec.pure_ok_iff] at h
  obtain ⟨_, v₁, hname, _, _, ⟨-, rfl⟩, _, v₂, hsymbol, _, _, ⟨-, rfl⟩, _, v₃, hdecimals, _, _,
    ⟨-, rfl⟩, -, rfl⟩ := h
  obtain ⟨r₁, h₁, -⟩ := (callEVM_ok_iff rfl).mp hname
  obtain ⟨r₂, h₂, -⟩ := (callEVM_ok_iff rfl).mp hsymbol
  obtain ⟨r₃, h₃, -⟩ := (callEVM_ok_iff rfl).mp hdecimals
  exact ⟨r₁, _, r₂, _, r₃, h₁, h₂, h₃⟩

/-- A relation that holds across every committed message. -/
structure EvmKeeps (k : Keeper W) (R : State W → State W → Prop) : Prop where
  committed : ∀ {s sender target data res t}, Committed k s sender target data res t → R s t

theorem evmBlind_config : EvmKeeps k (Exec.SameOn State.config) := ⟨fun h => h.config_eq⟩

theorem evmBlind_bank : EvmKeeps k (Exec.SameOn State.bank) := ⟨fun h => h.bank_eq⟩

variable {R : State W → State W → Prop} [Std.Refl R] [IsTrans (State W) R] (hR : EvmKeeps k R)
include hR

omit [IsTrans (State W) R] in
theorem relates_callEVMWithPayload :
    Exec.Relates R (callEVMWithPayload k sender target data) := by
  refine Exec.relates_of_exits (fun s a t h => ?_) fun s f t h => ?_
  · obtain ⟨res, h, -⟩ := callEVMWithPayload_ok_iff.mp h
    exact hR.committed h
  · rcases (callEVMWithPayload_error h).2 with rfl | ⟨res, h, -⟩
    · exact Std.Refl.refl _
    · exact hR.committed h

theorem relates_callEVM : Exec.Relates R (callEVM k abi sender contract method args) :=
  Exec.relates_bind (Exec.relates_mapError (Exec.relates_ofExcept _))
    fun _ => Exec.relates_mapError (relates_callEVMWithPayload hR)

theorem relates_queryERC20 : Exec.Relates R (queryERC20 k contract) :=
  Exec.relates_bind (relates_callEVM hR) fun _ =>
  Exec.relates_bind (Exec.relates_mapError (Exec.relates_ofExcept _)) fun _ =>
  Exec.relates_bind (relates_callEVM hR) fun _ =>
  Exec.relates_bind (Exec.relates_mapError (Exec.relates_ofExcept _)) fun _ =>
  Exec.relates_bind (relates_callEVM hR) fun _ =>
  Exec.relates_bind (Exec.relates_mapError (Exec.relates_ofExcept _)) fun _ =>
  Exec.relates_pure _

end

/-! ## Calls do not panic -/

section

variable {k} {s : State W} {sender contract : Address} {m : String}

theorem avoids_callEVMWithPayload {target : Option Address} {data : Payload} :
    Exec.Avoids (.panic m) (callEVMWithPayload k sender target data) s :=
  Exec.avoids_bind Exec.avoids_get fun _ _ _ =>
  Exec.avoids_bind (Exec.avoids_ofExcept _) fun _ _ _ =>
  Exec.avoids_bind (Exec.avoids_ofExcept _) fun _ _ _ =>
  Exec.avoids_bind (Exec.avoids_modify _) fun _ _ _ =>
  Exec.avoids_bind (Exec.avoids_failIf _ _) fun _ _ _ => Exec.avoids_pure _

theorem avoids_callEVM {abi : ABI} {method : Method} {args : List AbiArg} :
    Exec.Avoids (.panic m) (callEVM k abi sender contract method args) s :=
  Exec.avoids_bind (Exec.avoids_mapError (Exec.avoids_ofExcept _))
    fun _ _ _ => Exec.avoids_mapError avoids_callEVMWithPayload

theorem avoids_queryERC20 : Exec.Avoids (.panic m) (queryERC20 k contract) s :=
  Exec.avoids_bind avoids_callEVM fun _ _ _ =>
  Exec.avoids_bind (Exec.avoids_mapError (Exec.avoids_ofExcept _)) fun _ _ _ =>
  Exec.avoids_bind avoids_callEVM fun _ _ _ =>
  Exec.avoids_bind (Exec.avoids_mapError (Exec.avoids_ofExcept _)) fun _ _ _ =>
  Exec.avoids_bind avoids_callEVM fun _ _ _ =>
  Exec.avoids_bind (Exec.avoids_mapError (Exec.avoids_ofExcept _)) fun _ _ _ =>
  Exec.avoids_pure _

end

end GenesisEthermint.Intrarelayer
