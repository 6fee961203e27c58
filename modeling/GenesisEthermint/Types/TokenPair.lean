import GenesisEthermint.Types.Address

/-!
# Token Pairs

A token pair ties one coin denomination to one ERC20 contract. Its store key is the SHA-256
digest of the contract's text and the denomination, so what the registry relies on is that the
text is a hexadecimal address and that the digest does not collide.
-/

namespace GenesisEthermint.Types

/-- `types.Owner`. -/
inductive Owner where
  | OWNER_UNSPECIFIED
  | OWNER_MODULE
  | OWNER_EXTERNAL
  deriving DecidableEq, Repr

/-- `types.TokenPair`. -/
@[ext]
structure TokenPair where
  erc20Address : String
  denom : String
  enabled : Bool
  contractOwner : Owner
  deriving DecidableEq

/-- `NewTokenPair`: the `enabled` argument is not looked at. -/
def newTokenPair (keccak256 : List Char → Hash) (erc20Address : Address) (denom : String)
    (_enabled : Bool) (contractOwner : Owner) : TokenPair where
  erc20Address := erc20Address.hex keccak256
  denom := denom
  enabled := true
  contractOwner := contractOwner

namespace TokenPair

/-- The text `GetID` hashes. -/
def idText (p : TokenPair) : String := p.erc20Address ++ "|" ++ p.denom

/-- `GetID`. -/
def getID (tmhashSum : String → Hash) (p : TokenPair) : Hash := tmhashSum p.idText

/-- `GetERC20Contract`. -/
def getERC20Contract (p : TokenPair) : Address := hexToAddress p.erc20Address

/-- `ethermint.ValidateAddress`. -/
def validateAddress (address : String) : Except GoError Unit :=
  if isHexAddress address then .ok ()
  else .error (.wrap ErrInvalidAddress
    ("address '" ++ address ++ "' is not a valid ethereum hex address"))

/-- `TokenPair.Validate`. -/
def validate (p : TokenPair) : Except GoError Unit := do
  validateDenom p.denom
  validateAddress p.erc20Address

theorem validate_ok_iff {p : TokenPair} {u : Unit} : p.validate = .ok u ↔
    reDnm p.denom.toList = true ∧ isHexAddress p.erc20Address = true := by
  unfold validate validateAddress validateDenom
  by_cases hd : reDnm p.denom.toList = true <;>
    by_cases hx : isHexAddress p.erc20Address = true <;>
      simp [hd, hx, bind, Except.bind]

/-- `IsNativeCoin`. -/
def isNativeCoin (p : TokenPair) : Bool := p.contractOwner = .OWNER_MODULE

/-- `IsNativeERC20`. -/
def isNativeERC20 (p : TokenPair) : Bool := p.contractOwner = .OWNER_EXTERNAL

/-! ## The hashed text determines the pair -/

private theorem append_sep_inj {a b c d : List Char} (ha : '|' ∉ a) (hc : '|' ∉ c)
    (h : a ++ '|' :: b = c ++ '|' :: d) : a = c ∧ b = d := by
  induction a generalizing c with
  | nil =>
    cases c with
    | nil => simpa using h
    | cons x c =>
      -- the separator itself would have to be the first character of `c`
      simp only [List.nil_append, List.cons_append, List.cons.injEq] at h
      exact absurd h.1 fun hx => hc (hx ▸ List.mem_cons_self ..)
  | cons x a ih =>
    cases c with
    | nil =>
      simp only [List.nil_append, List.cons_append, List.cons.injEq] at h
      exact absurd h.1 fun hx => ha (hx ▸ List.mem_cons_self ..)
    | cons y c =>
      simp only [List.cons_append, List.cons.injEq] at h
      obtain ⟨rfl, h⟩ := h
      obtain ⟨rfl, rfl⟩ := ih (fun hm => ha (List.mem_cons_of_mem _ hm))
        (fun hm => hc (List.mem_cons_of_mem _ hm)) h
      exact ⟨rfl, rfl⟩

theorem sep_notMem_of_isHexAddress {s : String} (h : isHexAddress s = true) :
    '|' ∉ s.toList := by
  obtain ⟨p, hp, digits, rfl, hd⟩ := hexSpelling_iff.mpr ⟨h, rfl⟩
  have hall := (all_isHexCharacter_hexEncode (hexToAddress (p ++ String.ofList digits)).bytes).1
  rw [← hd, List.all_map, List.all_eq_true] at hall
  rw [String.toList_append, String.toList_ofList, List.mem_append]
  rintro (hm | hm)
  · simp only [List.mem_cons, List.not_mem_nil, or_false] at hp
    rcases hp with rfl | rfl | rfl <;> simp at hm
  · exact absurd (isHexCharacter_of_toLower (hall _ hm)) (by decide)

/-- Two pairs whose contract texts are hexadecimal addresses hash the same text only if they
have the same contract text and the same denomination. -/
theorem idText_inj {p q : TokenPair} (hp : isHexAddress p.erc20Address = true)
    (hq : isHexAddress q.erc20Address = true) (h : p.idText = q.idText) :
    p.erc20Address = q.erc20Address ∧ p.denom = q.denom := by
  have h := congrArg String.toList h
  simp only [idText, String.toList_append, List.append_assoc] at h
  obtain ⟨ha, hd⟩ := append_sep_inj (sep_notMem_of_isHexAddress hp)
    (sep_notMem_of_isHexAddress hq) h
  exact ⟨String.toList_inj.mp ha, String.toList_inj.mp hd⟩

end TokenPair

end GenesisEthermint.Types
