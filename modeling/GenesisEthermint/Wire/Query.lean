import GenesisEthermint.Chain.Pagination
import GenesisEthermint.Wire.TokenPairs

/-!
# Queries

The query server reads the store of bytes: `TokenPair` follows a token to its pair, and
`TokenPairs` serves the pairs page by page, each decoded from its bytes.

A client that reads all pages while the module goes on running reads a pair at most once, and
every pair that stays registered.
-/

namespace GenesisEthermint.Wire

open GenesisEthermint.Foundation
open GenesisEthermint.Chain (PageRequest PageResponse PageFault StoreEntry Registry Keeper paginate
  serve callback readPages entriesWalk seen Serves Resumes KeysStay directed)
open GenesisEthermint.Types (Hash HexSpelling hexSpelling_iff isHexAddress)
open GenesisEthermint.Registry (RegistryConsistent ValidContent exportable_run)
open GenesisEthermint.Intrarelayer (Op emptyRegistry initGenesis step)
open GenesisEthermint.Tokens (referenceGenesis referenceState referenceWorld tokenB)

/-! ## §1 The query server -/

/-- The gRPC codes of the server. -/
inductive Code where
  | InvalidArgument
  | NotFound
  | Internal
  deriving DecidableEq, Repr

/-- How a query fails: with a status, or with a panic. -/
inductive QueryFault where
  | status (code : Code) (text : String)
  /-- The error of `Paginate`, under the code `Internal`. -/
  | internal (err : WireError)
  | storePanic (p : StorePanic)
  /-- The panic `prefixIterator invalid, cannot call Key()`. -/
  | iteratorPanic
  deriving DecidableEq, Repr

/-- What `TokenPairs` makes of a page that is not served. -/
def QueryFault.ofPage : PageFault WireError → QueryFault
  | .offsetAndKey =>
    .status .Internal "invalid request, either offset or key is expected, got both"
  | .onResult err => .internal err
  | .iteratorInvalid => .iteratorPanic

/-- The callback of `TokenPairs`. -/
def appendPair (_key value : List UInt8) (pairs : List TokenPair) :
    Except WireError (List TokenPair) :=
  (TokenPair.unmarshal value).map fun pair => pairs ++ [pair]

/-- `Keeper.TokenPairs`, of a `nil` request or of its pagination. -/
def tokenPairs (m : ByteStore) (req : Option (Option PageRequest)) :
    Except QueryFault (PageResponse × List TokenPair) :=
  match req with
  | none => .error (.status .InvalidArgument "empty request")
  | some pagination =>
    (paginate appendPair KeyPrefixTokenPair m pagination []).mapError .ofPage

/-- `Keeper.TokenPair`, of a `nil` request or of its token. -/
def tokenPair (m : ByteStore) (req : Option String) : Except QueryFault TokenPair :=
  match req with
  | none => .error (.status .InvalidArgument "empty request")
  | some token =>
    if ¬ isHexAddress token ∧ ¬ Types.reDnm token.toList then
      .error (.status .InvalidArgument ("invalid format for token " ++ token ++
        ", should be either hex ('0x...') cosmos denom"))
    else
      let notFound := QueryFault.status .NotFound ("token pair with token '" ++ token ++ "'")
      match getTokenPairID m token with
      | none => .error notFound
      | some id =>
        if id = [] then .error notFound
        else
          match getTokenPair m (some id) with
          | .error p => .error (.storePanic p)
          | .ok none => .error notFound
          | .ok (some pair) => .ok pair

/-! ## §2 Pages of decoded pairs -/

/-- One request of a client that reads all pairs. -/
def tokenPairsPage (m : ByteStore) (req : PageRequest) :
    Except QueryFault (PageResponse × List TokenPair) :=
  tokenPairs m (some (some req))

/-- The pair an entry is decoded to. -/
def decodedPair (e : StoreEntry) : TokenPair := (TokenPair.unmarshal e.2).toOption.getD .zero

/-- Every stored pair can be decoded. -/
def Decodable (m : ByteStore) : Prop :=
  ∀ e ∈ m.subEntries KeyPrefixTokenPair, TokenPair.unmarshal e.2 = .ok (decodedPair e)

theorem serve_appendPair {page : List StoreEntry} {pairs : List TokenPair}
    (h : ∀ e ∈ page, TokenPair.unmarshal e.2 = .ok (decodedPair e)) :
    serve appendPair page pairs = .ok (pairs ++ page.map decodedPair) := by
  induction page generalizing pairs with
  | nil =>
    rw [List.map_nil, List.append_nil]
    rfl
  | cons e page ih =>
    have hfirst : callback appendPair pairs e = .ok (pairs ++ [decodedPair e]) := by
      rw [callback, appendPair, h e List.mem_cons_self]
      rfl
    rw [serve, List.foldlM_cons, hfirst]
    have ih := @ih (pairs ++ [decodedPair e]) fun e he => h e (List.mem_cons_of_mem _ he)
    rw [List.append_assoc] at ih
    exact ih

/-- A page holds the decoded pairs of its entries. -/
theorem serves_tokenPairsPage {m : ByteStore} (hdecodable : Decodable m)
    (hlength : (m.subEntries KeyPrefixTokenPair).length < 2 ^ 64) :
    Serves tokenPairsPage KeyPrefixTokenPair decodedPair m := by
  intro req cursor hcursor
  obtain ⟨total, hpage⟩ := @Chain.paginate_resume _ _ _ appendPair _ _ _ hlength hcursor []
  refine ⟨total, ?_⟩
  have hstored : ∀ e ∈ (seen KeyPrefixTokenPair req.reverse cursor m).take
      req.effectiveLimit.toNat, TokenPair.unmarshal e.2 = .ok (decodedPair e) := by
    intro e he
    apply hdecodable
    have hmem := (mem_visible_iff.mp (List.mem_of_mem_take he)).1
    exact ByteStore.mem_subEntries_iff.mpr (Chain.mem_directed_iff.mp hmem)
  rw [tokenPairsPage, tokenPairs, hpage, serve_appendPair hstored, List.nil_append]
  rfl

/-! ## §3 The stores of a deployment -/

section Deployment

variable {W : Type} {k : Keeper W} {sum : GoString → Hash} {m : ByteStore} {r : Registry}

/-- Every pair is under its own ID. -/
def ByID (k : Keeper W) (r : Registry) : Prop :=
  ∀ {key p}, r.tokenPairs.lookup key = some p → key = (p.getID k.tmhashSum).bytes

theorem byID_write (h : ByID k r) (w : RegistryWrite) : ByID k (w.onRegistry k r) := by
  intro key p hp
  cases w with
  | setTokenPair q =>
    simp only [RegistryWrite.onRegistry, Intrarelayer.setTokenPair, KVStore.lookup_set] at hp
    split at hp
    · cases hp
      assumption
    · exact h hp
  | deleteTokenPair q =>
    simp only [RegistryWrite.onRegistry, Intrarelayer.deleteTokenPair, KVStore.lookup_delete] at hp
    split at hp
    · cases hp
    · exact h hp
  | setDenomMap denom id => exact h hp
  | setERC20Map erc20 id => exact h hp
  | deleteERC20Map erc20 => exact h hp

theorem byID_foldl {ws : List RegistryWrite} (h : ByID k r) :
    ByID k (ws.foldl (RegistryWrite.onRegistry k) r) := by
  induction ws generalizing r with
  | nil => exact h
  | cons w ws ih => exact ih (byID_write h w)

/-- The bytes are the registry of a state that the module can reach. -/
structure Reached (k : Keeper W) (m : ByteStore) (r : Registry) : Prop where
  represents : Represents m r
  reached : ∃ (gs : Types.GenesisState) (s₀ : Chain.State W) (ops : List Op),
    s₀.registry = emptyRegistry ∧ gs.validate = .ok () ∧ (∀ op ∈ ops, ValidContent op) ∧
      r = (run (step k) (initGenesis k gs s₀) ops).registry

theorem Reached.storable (h : Reached k m r) : Registry.Storable r := by
  obtain ⟨gs, s₀, ops, hempty, hvalid, hops, rfl⟩ := h.reached
  exact (exportable_run hempty hvalid hops).storable

theorem Reached.byID (hsum : ∀ s, k.tmhashSum s = sum (utf8 s)) (h : Reached k m r) :
    ByID k r := by
  obtain ⟨gs, s₀, ops, hempty, hvalid, hops, rfl⟩ := h.reached
  rw [(kept_run hsum hempty hvalid hops).1]
  apply byID_foldl
  intro key p hp
  simp [emptyRegistry, KVStore.lookup_empty] at hp

theorem unmarshal_pairBytes {p : Types.TokenPair} (h : p.validate = .ok ()) :
    TokenPair.unmarshal (pairBytes p) = .ok (ofPair p) := by
  have hmust := mustUnmarshal_pairBytes h
  unfold mustUnmarshal at hmust
  split at hmust
  · cases hmust
  · rename_i q hq
    rw [hq, Except.ok.inj hmust]

/-- An entry under the pairs' prefix is a pair of the registry under its ID. -/
theorem Reached.entry (hsum : ∀ s, k.tmhashSum s = sum (utf8 s)) (h : Reached k m r)
    {e : StoreEntry} (he : m.get KeyPrefixTokenPair e.1 = some e.2) :
    ∃ p, r.tokenPairs.lookup e.1 = some p ∧ TokenPair.unmarshal e.2 = .ok (ofPair p) ∧
      e.1 = ((ofPair p).getID sum).bytes := by
  rw [h.represents.pairs] at he
  obtain ⟨p, hp, hbytes⟩ := Option.map_eq_some_iff.mp he
  refine ⟨p, hp, ?_, ?_⟩
  · rw [← hbytes, unmarshal_pairBytes (h.storable.valid hp)]
  · rw [getID_ofPair hsum]
    exact h.byID hsum hp

theorem Reached.decodable (hsum : ∀ s, k.tmhashSum s = sum (utf8 s)) (h : Reached k m r) :
    Decodable m := by
  intro e he
  obtain ⟨p, -, hread, -⟩ := h.entry hsum (ByteStore.mem_subEntries_iff.mp he)
  rw [decodedPair, hread]
  rfl

/-- The ID of the decoded pair is the key of its entry. -/
theorem Reached.getID_decodedPair (hsum : ∀ s, k.tmhashSum s = sum (utf8 s))
    (h : Reached k m r) {e : StoreEntry} (he : m.get KeyPrefixTokenPair e.1 = some e.2) :
    ((decodedPair e).getID sum).bytes = e.1 := by
  obtain ⟨p, -, hread, hkey⟩ := h.entry hsum he
  rw [decodedPair, hread, hkey]
  rfl

theorem Reached.get_nil (hsum : ∀ s, k.tmhashSum s = sum (utf8 s)) (h : Reached k m r) :
    m.get KeyPrefixTokenPair [] = none := by
  cases hget : m.get KeyPrefixTokenPair [] with
  | none => rfl
  | some value =>
    obtain ⟨p, -, -, hkey⟩ := h.entry (e := ([], value)) hsum hget
    exact absurd hkey.symm (hash_ne_nil _)

theorem Reached.length_eq (h : Reached k m r) :
    (m.subEntries KeyPrefixTokenPair).length = (Intrarelayer.getAllTokenPairs r).length := by
  rw [subEntries_eq_map h.represents.pairs, List.length_map, Intrarelayer.getAllTokenPairs,
    List.length_map]

/-- The entries are decoded to the pairs of the registry. -/
theorem Reached.map_decodedPair (h : Reached k m r) :
    (m.subEntries KeyPrefixTokenPair).map decodedPair =
      (Intrarelayer.getAllTokenPairs r).map ofPair := by
  rw [subEntries_eq_map h.represents.pairs, Intrarelayer.getAllTokenPairs, List.map_map,
    List.map_map]
  apply List.map_congr_left
  intro e he
  have hvalid := h.storable.valid (KVStore.mem_entries_iff.mp he)
  simp only [Function.comp_apply, decodedPair, unmarshal_pairBytes hvalid]
  rfl

/-- The pairs of the registry in the direction of a request. -/
theorem Reached.map_directed (h : Reached k m r) (reverse : Bool) :
    (directed reverse (m.subEntries KeyPrefixTokenPair)).map decodedPair =
      if reverse then ((Intrarelayer.getAllTokenPairs r).map ofPair).reverse
      else (Intrarelayer.getAllTokenPairs r).map ofPair := by
  rw [← h.map_decodedPair, ← List.map_reverse, directed]
  cases reverse with
  | false => rfl
  | true => rfl

/-- A decoded pair is the one found under its ID. -/
theorem Reached.getTokenPair_decodedPair (hsum : ∀ s, k.tmhashSum s = sum (utf8 s))
    (h : Reached k m r) {e : StoreEntry} (he : m.get KeyPrefixTokenPair e.1 = some e.2) :
    getTokenPair m (some ((decodedPair e).getID sum).bytes) = .ok (some (decodedPair e)) := by
  obtain ⟨q, hq, hread, -⟩ := h.entry hsum he
  have hp : decodedPair e = ofPair q := by
    rw [decodedPair, hread]
    rfl
  have hzero : q ≠ Intrarelayer.zeroPair := Intrarelayer.ne_zeroPair_of_isHexAddress
    (Types.TokenPair.validate_ok_iff.mp (h.storable.valid hq)).2
  rw [← h.getID_decodedPair hsum he] at hq
  rw [getTokenPair_of_represents h.represents h.storable,
    Intrarelayer.getTokenPair_eq_some_iff.mpr ⟨hq, hzero⟩, Option.map_some, hp]

/-! ## §4 The query for one token -/

/-- The pair the registry has for a token. -/
def found (r : Registry) (token : String) : Option Types.TokenPair :=
  (Intrarelayer.getTokenPairID r token).bind (Intrarelayer.getTokenPair r)

/-- The token is a spelling of the pair's contract, or its denomination where that does not read
as an address. -/
def Names (token : String) (p : Types.TokenPair) : Prop :=
  HexSpelling token p.getERC20Contract ∨ isHexAddress token = false ∧ p.denom = token

/-- The answer of `TokenPair` is that of the registry. -/
theorem tokenPair_eq (h : Reached k m r) (token : String) :
    tokenPair m (some token) =
      if ¬ isHexAddress token ∧ ¬ Types.reDnm token.toList then
        .error (.status .InvalidArgument ("invalid format for token " ++ token ++
          ", should be either hex ('0x...') cosmos denom"))
      else
        match found r token with
        | none => .error (.status .NotFound ("token pair with token '" ++ token ++ "'"))
        | some p => .ok (ofPair p) := by
  have hreads := readsAgree_of_represents h.represents h.storable
  rw [tokenPair]
  split
  · rfl
  · rw [hreads.tokenPairID, found]
    cases Intrarelayer.getTokenPairID r token with
    | none => rfl
    | some id =>
      simp only [Option.map_some, hash_ne_nil, if_false, hreads.pair, Option.bind_some]
      cases Intrarelayer.getTokenPair r id with
      | none => rfl
      | some p => rfl

theorem found_eq_some_iff (hcons : RegistryConsistent k r) {token : String}
    {p : Types.TokenPair} : found r token = some p ↔ Registry.Stored r p ∧ Names token p := by
  rw [found, Option.bind_eq_some_iff]
  constructor
  · rintro ⟨id, hid, hp⟩
    obtain ⟨hstored, hhex, hdenom⟩ := hcons.stored_of_found hid hp
    refine ⟨hstored, ?_⟩
    cases hx : isHexAddress token with
    | true => exact .inl (hexSpelling_iff.mpr ⟨hx, (hhex hx).symm⟩)
    | false => exact .inr ⟨hx, hdenom hx⟩
  · rintro ⟨hstored, hname⟩
    refine ⟨p.getID k.tmhashSum, ?_, hcons.getTokenPair_getID hstored⟩
    rcases hname with hx | ⟨hx, rfl⟩
    · exact hcons.getTokenPairID_of_hexSpelling hstored hx
    · exact hcons.getTokenPairID_denom hstored hx

/-- The deployment that begins with the reference genesis. -/
def referenceRegistry : Registry :=
  (initGenesis bytesKeeper referenceGenesis (referenceState referenceWorld)).registry

/-- The registry when a third party's token has been registered besides. -/
def grownRegistry : Registry :=
  (run (step bytesKeeper) (initGenesis bytesKeeper referenceGenesis
    (referenceState referenceWorld)) [.registerERC20 tokenB]).registry

/-- What operations make of the reference genesis can be reached. -/
theorem reached_of_reference (ops : List Op) (hops : ∀ op ∈ ops, ValidContent op) :
    ∃ m, Reached bytesKeeper m (run (step bytesKeeper) (initGenesis bytesKeeper referenceGenesis
      (referenceState referenceWorld)) ops).registry := by
  have hvalid : referenceGenesis.validate = .ok () := by decide
  obtain ⟨-, m, -, hrep⟩ := @kept_run _ bytesKeeper byteSum (fun _ => rfl)
    referenceGenesis (referenceState referenceWorld) ops rfl hvalid hops
  exact ⟨m, hrep, _, _, ops, rfl, hvalid, hops, rfl⟩

theorem reached_reference : ∃ m, Reached bytesKeeper m referenceRegistry :=
  reached_of_reference [] (by simp)

theorem reached_grown : ∃ m, Reached bytesKeeper m grownRegistry :=
  reached_of_reference [.registerERC20 tokenB] (by simp [ValidContent])

theorem consistent_reference : RegistryConsistent bytesKeeper referenceRegistry :=
  Registry.consistent_initGenesis rfl ⟨by decide, List.pairwise_pair.mpr (by decide),
    List.pairwise_pair.mpr (by decide), List.pairwise_pair.mpr fun hid =>
      absurd hid (by decide +kernel)⟩

theorem length_reference : (Intrarelayer.getAllTokenPairs referenceRegistry).length = 2 := by
  decide +kernel

theorem length_grown : (Intrarelayer.getAllTokenPairs grownRegistry).length = 3 := by
  decide +kernel

/-- **The query for a token** answers with the pair the token names, by any spelling of its
contract or by its denomination; without such a pair it fails with a status, and it never
panics. -/
theorem tokenPair_answers (h : Reached k m r) (hcons : RegistryConsistent k r) (token : String) :
    (∃ p, Registry.Stored r p ∧ Names token p ∧ tokenPair m (some token) = .ok (ofPair p)) ∨
      (∀ p, Registry.Stored r p → ¬ Names token p) ∧
        ∃ code text, tokenPair m (some token) = .error (.status code text) := by
  cases hfound : found r token with
  | some p =>
    obtain ⟨hstored, hname⟩ := (found_eq_some_iff hcons).mp hfound
    refine .inl ⟨p, hstored, hname, ?_⟩
    rw [tokenPair_eq h, hfound, if_neg]
    -- the name of a pair is an address, or the denomination of a valid pair
    rintro ⟨hhex, hdenom⟩
    rcases hname with hx | ⟨-, rfl⟩
    · exact hhex (hexSpelling_iff.mp hx).1
    · obtain ⟨key, hp⟩ := hstored
      exact hdenom (Types.TokenPair.validate_ok_iff.mp (h.storable.valid hp)).1
  | none =>
    refine .inr ⟨fun p hstored hname => ?_, ?_⟩
    · rw [(found_eq_some_iff hcons).mpr ⟨hstored, hname⟩] at hfound
      cases hfound
    · rw [tokenPair_eq h, hfound]
      split
      · exact ⟨_, _, rfl⟩
      · exact ⟨_, _, rfl⟩

theorem tokenPair_answers_reference : ∃ m, Reached bytesKeeper m referenceRegistry ∧
    ((∃ p, Registry.Stored referenceRegistry p ∧ Names "acoin" p ∧
        tokenPair m (some "acoin") = .ok (ofPair p)) ∨
      (∀ p, Registry.Stored referenceRegistry p → ¬ Names "acoin" p) ∧
        ∃ code text, tokenPair m (some "acoin") = .error (.status code text)) := by
  obtain ⟨m, hm⟩ := reached_reference
  exact ⟨m, hm, tokenPair_answers hm consistent_reference "acoin"⟩

/-! ## §5 Reading all pairs -/

/-- **Reading all pages of a store** that stays as it is gives all pairs of the registry, in the
order of the direction, whatever the limits of the requests are. -/
theorem readPages_tokenPairs (hsum : ∀ s, k.tmhashSum s = sum (utf8 s)) (h : Reached k m r)
    {reverse : Bool} {reqs : List PageRequest} (hreverse : ∀ req ∈ reqs, req.reverse = reverse)
    (hfew : (Intrarelayer.getAllTokenPairs r).length < 2 ^ 64)
    (henough : (Intrarelayer.getAllTokenPairs r).length < reqs.length) :
    readPages tokenPairsPage none (reqs.map fun req => (m, req)) =
      .ok (some (if reverse then ((Intrarelayer.getAllTokenPairs r).map ofPair).reverse
        else (Intrarelayer.getAllTokenPairs r).map ofPair)) := by
  have hlength := h.length_eq
  rw [Chain.readPages_all hreverse (serves_tokenPairsPage (h.decodable hsum) (hlength ▸ hfew))
    (h.get_nil hsum) (hlength ▸ henough), ← h.map_directed]

/-- Three requests of one pair each. -/
theorem readPages_tokenPairs_reference : ∃ m, Reached bytesKeeper m referenceRegistry ∧
    readPages tokenPairsPage none
        ((List.replicate 3 (⟨none, 0, 1, false, false⟩ : PageRequest)).map fun req => (m, req)) =
      .ok (some ((Intrarelayer.getAllTokenPairs referenceRegistry).map ofPair)) := by
  obtain ⟨m, hm⟩ := reached_reference
  exact ⟨m, hm, @readPages_tokenPairs _ bytesKeeper byteSum m _ (fun _ => rfl) hm false _ (by simp)
    (by rw [length_reference]; decide) (by rw [length_reference]; decide)⟩

/-- **A page from an offset on** is a window of the pairs of the registry, with the ID of the pair
behind it as the next key. Where the end of the window does not fit 64 bits, the page is empty and
there is no next key, whatever is stored. -/
theorem tokenPairs_window (hsum : ∀ s, k.tmhashSum s = sum (utf8 s)) (h : Reached k m r)
    {req : PageRequest} (hkey : req.key = none ∨ req.key = some [] ∧ req.offset = 0)
    (hfew : (Intrarelayer.getAllTokenPairs r).length < 2 ^ 64) :
    let pairs := (Intrarelayer.getAllTokenPairs r).map ofPair
    let served := if req.reverse then pairs.reverse else pairs
    let stop := req.offset.toNat + req.effectiveLimit.toNat
    let total := if req.countsTotal then .ofNat pairs.length else 0
    tokenPairs m (some (some req)) = .ok (if stop < 2 ^ 64 then
      (⟨(served.drop stop).head?.map fun p => (p.getID sum).bytes, total⟩,
        (served.drop req.offset.toNat).take req.effectiveLimit.toNat)
      else (⟨none, total⟩, [])) := by
  intro pairs served stop total
  have hlength := h.length_eq
  have hpairs : (m.subEntries KeyPrefixTokenPair).map decodedPair = pairs := h.map_decodedPair
  have hcount : (m.subEntries KeyPrefixTokenPair).length = pairs.length := by
    rw [← hpairs, List.length_map]
  obtain ⟨es, hes⟩ : ∃ es, directed req.reverse (m.subEntries KeyPrefixTokenPair) = es := ⟨_, rfl⟩
  have hserved : served = es.map decodedPair := by
    rw [← hes, h.map_directed]
  have hstored : ∀ e ∈ es, m.get KeyPrefixTokenPair e.1 = some e.2 := by
    intro e he
    rw [← hes] at he
    exact Chain.mem_directed_iff.mp he
  have hdecoded : ∀ e ∈ (es.drop req.offset.toNat).take req.effectiveLimit.toNat,
      TokenPair.unmarshal e.2 = .ok (decodedPair e) := by
    intro e he
    apply h.decodable hsum
    have hmem := List.mem_of_mem_drop (List.mem_of_mem_take he)
    exact ByteStore.mem_subEntries_iff.mpr (hstored e hmem)
  have hfirst : Chain.firstKey (es.drop stop) =
      (served.drop stop).head?.map fun p => (p.getID sum).bytes := by
    rw [hserved, ← List.map_drop, List.head?_map, Option.map_map, Chain.firstKey]
    cases hdrop : es.drop stop with
    | nil => rfl
    | cons e after =>
      have hmem : e ∈ es := List.mem_of_mem_drop (hdrop ▸ List.mem_cons_self)
      exact congrArg some (h.getID_decodedPair hsum (hstored e hmem)).symm
  rw [tokenPairs, Chain.paginate_window hkey (hlength ▸ hfew), hes, hcount]
  dsimp only
  by_cases hstop : stop < 2 ^ 64
  · have hpage : ((es.drop req.offset.toNat).take req.effectiveLimit.toNat).map decodedPair =
        (served.drop req.offset.toNat).take req.effectiveLimit.toNat := by
      rw [hserved, List.map_take, List.map_drop]
    rw [if_pos hstop, if_pos hstop, serve_appendPair hdecoded, List.nil_append, hpage, ← hfirst]
    rfl
  · rw [if_neg hstop, if_neg hstop]
    rfl

/-- The second pair of the two, on a page of its own. -/
theorem tokenPairs_window_reference : ∃ m, Reached bytesKeeper m referenceRegistry ∧
    tokenPairs m (some (some ⟨none, 1, 1, true, false⟩)) =
      .ok (⟨none, 2⟩, ((Intrarelayer.getAllTokenPairs referenceRegistry).map ofPair).drop 1) := by
  obtain ⟨m, hm⟩ := reached_reference
  have h := @tokenPairs_window _ bytesKeeper byteSum m _ (fun _ => rfl) hm ⟨none, 1, 1, true, false⟩
    (.inl rfl) (by rw [length_reference]; decide)
  refine ⟨m, hm, h.trans ?_⟩
  generalize hps : (Intrarelayer.getAllTokenPairs referenceRegistry).map ofPair = ps
  have hlength : ps.length = 2 := by rw [← hps, List.length_map, length_reference]
  obtain ⟨p, q, rfl⟩ := List.length_eq_two.mp hlength
  rfl

/-- What a client has that read each pair at most once, every pair that stayed registered, and
none that was not registered. -/
structure ReadOnce (sum : GoString → Hash) (reverse : Bool)
    (versions : List (ByteStore × PageRequest)) (out : List TokenPair) : Prop where
  ordered : (out.map fun p => (p.getID sum).bytes).Pairwise (KeyBefore reverse)
  complete : ∀ id : Hash, (∀ v ∈ versions, isTokenPairRegistered v.1 id.bytes = true) →
    ∃ p ∈ out, p.getID sum = id
  sound : ∀ p ∈ out, ∃ v ∈ versions,
    getTokenPair v.1 (some (p.getID sum).bytes) = .ok (some p)

/-- **Reading the pages of a store that changes**: whatever the module does between two requests,
no page fails, and a client that comes to the end has read each pair at most once. In reverse no
pair may be removed meanwhile. -/
theorem readOnce_of_readPages (hsum : ∀ s, k.tmhashSum s = sum (utf8 s)) {reverse : Bool}
    {versions : List (ByteStore × PageRequest)}
    (hreverse : ∀ v ∈ versions, v.2.reverse = reverse)
    (hreached : ∀ v ∈ versions, ∃ r, Reached k v.1 r ∧
      (Intrarelayer.getAllTokenPairs r).length < 2 ^ 64)
    (hstay : reverse = true → KeysStay KeyPrefixTokenPair versions) :
    ∃ res, readPages tokenPairsPage none versions = .ok res ∧
      ∀ out ∈ res, ReadOnce sum reverse versions out := by
  have hserves : ∀ v ∈ versions, Serves tokenPairsPage KeyPrefixTokenPair decodedPair v.1 := by
    intro v hv
    obtain ⟨r, hr, hfew⟩ := hreached v hv
    exact serves_tokenPairsPage (hr.decodable hsum) (hr.length_eq ▸ hfew)
  have hkeys : ∀ v ∈ versions, v.1.get KeyPrefixTokenPair [] = none := by
    intro v hv
    obtain ⟨r, hr, -⟩ := hreached v hv
    exact hr.get_nil hsum
  refine ⟨_, Chain.readPages_eq_walk hreverse hserves hkeys hstay (by simp), ?_⟩
  intro out hout
  obtain ⟨es, hes, rfl⟩ := Option.map_eq_some_iff.mp hout
  -- every version is in order, and what was read of it was stored
  have hord : ∀ version ∈ versions.map fun v => (directed reverse
      (v.1.subEntries KeyPrefixTokenPair), v.2.effectiveLimit.toNat),
      Ordered Prod.fst (KeyBefore reverse) version.1 := by
    intro version hversion
    obtain ⟨v, -, rfl⟩ := List.mem_map.mp hversion
    exact Chain.ordered_directed reverse
  have hstored : ∀ e ∈ es, ∃ v ∈ versions, v.1.get KeyPrefixTokenPair e.1 = some e.2 := by
    intro e he
    obtain ⟨version, hversion, hmem⟩ := exists_version_of_mem_walk hes he
    obtain ⟨v, hv, rfl⟩ := List.mem_map.mp hversion
    exact ⟨v, hv, Chain.mem_directed_iff.mp hmem⟩
  have hid : ∀ e ∈ es, ((decodedPair e).getID sum).bytes = e.1 := by
    intro e he
    obtain ⟨v, hv, hget⟩ := hstored e he
    obtain ⟨r, hr, -⟩ := hreached v hv
    exact hr.getID_decodedPair hsum hget
  constructor
  · have hmap : (es.map decodedPair).map (fun p => (p.getID sum).bytes) = es.map Prod.fst := by
      rw [List.map_map]
      exact List.map_congr_left hid
    rw [hmap, List.pairwise_map]
    exact walk_pairwise hord hes
  · intro id hregistered
    obtain ⟨e, he, hkey⟩ := exists_of_walk (k := id.bytes) hord hes (fun version hversion => by
      obtain ⟨v, hv, rfl⟩ := List.mem_map.mp hversion
      obtain ⟨value, hvalue⟩ := Option.isSome_iff_exists.mp (hregistered v hv)
      exact ⟨(id.bytes, value), Chain.mem_directed_iff.mpr hvalue, rfl⟩) (by simp)
    refine ⟨decodedPair e, List.mem_map_of_mem he, ?_⟩
    have hbytes := (hid e he).trans hkey
    cases hgetID : (decodedPair e).getID sum
    cases id
    rw [hgetID] at hbytes
    congr
  · intro p hp
    obtain ⟨e, he, rfl⟩ := List.mem_map.mp hp
    obtain ⟨v, hv, hget⟩ := hstored e he
    obtain ⟨r, hr, -⟩ := hreached v hv
    exact ⟨v, hv, hr.getTokenPair_decodedPair hsum hget⟩

/-- The first page is read at two pairs, the second one when a third pair has been registered. -/
theorem readOnce_of_readPages_reference :
    ∃ m m', Reached bytesKeeper m referenceRegistry ∧ Reached bytesKeeper m' grownRegistry ∧
      (Intrarelayer.getAllTokenPairs grownRegistry).length = 3 ∧
      ∃ res, readPages tokenPairsPage none
          [(m, ⟨none, 0, 1, false, false⟩), (m', ⟨none, 0, 1, false, false⟩)] = .ok res ∧
        ∀ out ∈ res, ReadOnce byteSum false
          [(m, ⟨none, 0, 1, false, false⟩), (m', ⟨none, 0, 1, false, false⟩)] out := by
  obtain ⟨m, hm⟩ := reached_reference
  obtain ⟨m', hm'⟩ := reached_grown
  have hfew : (Intrarelayer.getAllTokenPairs referenceRegistry).length < 2 ^ 64 := by
    rw [length_reference]
    decide
  have hfew' : (Intrarelayer.getAllTokenPairs grownRegistry).length < 2 ^ 64 := by
    rw [length_grown]
    decide
  exact ⟨m, m', hm, hm', length_grown,
    @readOnce_of_readPages _ bytesKeeper byteSum (fun _ => rfl) false _ (by simp)
      (by simpa using ⟨⟨_, hm, hfew⟩, _, hm', hfew'⟩) nofun⟩

end Deployment

end GenesisEthermint.Wire
