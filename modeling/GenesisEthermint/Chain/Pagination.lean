import GenesisEthermint.Foundation.Pages
import GenesisEthermint.Foundation.PrefixStore
import Mathlib.Algebra.GroupWithZero.Nat

/-!
# Paginated Queries

`Paginate` serves one page of a prefix store: from a key on, or from an offset on, in either
direction, and answers with the key the next page begins with. A request with a key restarts the
iterator there; for the reverse direction it looks up the entry behind that key, the exclusive
end of the range to run back from.

The numbers of a request are the client's, and their sum is taken modulo `2 ^ 64`.
-/

namespace GenesisEthermint.Chain

open GenesisEthermint.Foundation

/-- An entry of the store, without the prefix. -/
abbrev StoreEntry := List UInt8 × List UInt8

/-- `query.PageRequest`; `none` is a `nil` key. -/
structure PageRequest where
  key : Option (List UInt8)
  offset : UInt64
  limit : UInt64
  countTotal : Bool
  reverse : Bool
  deriving DecidableEq, Repr

/-- `query.PageResponse`; `none` is a `nil` key. -/
structure PageResponse where
  nextKey : Option (List UInt8)
  total : UInt64
  deriving DecidableEq, Repr

/-- How a page is not served. -/
inductive PageFault (ε : Type) where
  /-- `invalid request, either offset or key is expected, got both`. -/
  | offsetAndKey
  /-- The error of the callback. -/
  | onResult (err : ε)
  /-- The panic `prefixIterator invalid, cannot call Key()`. -/
  | iteratorInvalid
  deriving DecidableEq, Repr

/-! ## §1 The code -/

/-- `&PageRequest{}`. -/
def PageRequest.empty : PageRequest := ⟨none, 0, 0, false, false⟩

def DefaultLimit : UInt64 := 100

/-- The entries the iterator of `getIterator` visits. -/
def getIterator {ε : Type} (pre : List UInt8) (m : ByteStore) (start : Option (List UInt8))
    (reverse : Bool) : Except (PageFault ε) (List StoreEntry) :=
  if reverse then
    match start with
    | none => .ok (m.subReverseIterator pre [] none)
    | some start =>
      match m.subIterator pre start none with
      | [] => .ok (m.subReverseIterator pre [] none)
      | [_] => .error .iteratorInvalid
      | _ :: next :: _ => .ok (m.subReverseIterator pre [] (some next.1))
  else .ok (m.subIterator pre (start.getD []) none)

section Loops

variable {σ ε : Type} (onResult : List UInt8 → List UInt8 → σ → Except ε σ)

/-- One call of the callback. -/
def callback (s : σ) (e : StoreEntry) : Except (PageFault ε) σ :=
  (onResult e.1 e.2 s).mapError .onResult

/-- The loop of a request with a key. -/
def keyLoop (limit count : UInt64) :
    List StoreEntry → σ → Except (PageFault ε) (Option (List UInt8) × σ)
  | [], s => .ok (none, s)
  | e :: es, s =>
    if count = limit then .ok (some e.1, s)
    else do
      let s ← callback onResult s e
      keyLoop limit (count + 1) es s

/-- The loop of a request without one: the next key and the entries counted. -/
def offsetLoop (offset stop : UInt64) (countTotal : Bool) (count : UInt64)
    (nextKey : Option (List UInt8)) :
    List StoreEntry → σ → Except (PageFault ε) ((Option (List UInt8) × UInt64) × σ)
  | [], s => .ok ((nextKey, count), s)
  | e :: es, s =>
    let count := count + 1
    if count ≤ offset then offsetLoop offset stop countTotal count nextKey es s
    else if count ≤ stop then do
      let s ← callback onResult s e
      offsetLoop offset stop countTotal count nextKey es s
    else if count = stop + 1 then
      if countTotal then offsetLoop offset stop countTotal count (some e.1) es s
      else .ok ((some e.1, count), s)
    else offsetLoop offset stop countTotal count nextKey es s

/-- `Paginate`, with a callback that changes a state. -/
def paginate (pre : List UInt8) (m : ByteStore) (pageRequest : Option PageRequest) (s : σ) :
    Except (PageFault ε) (PageResponse × σ) :=
  let req := pageRequest.getD .empty
  if 0 < req.offset ∧ req.key.isSome then .error .offsetAndKey
  else
    let limit := if req.limit = 0 then DefaultLimit else req.limit
    let countTotal := if req.limit = 0 then true else req.countTotal
    if (req.key.getD []).length ≠ 0 then do
      let entries ← getIterator pre m req.key req.reverse
      let res ← keyLoop onResult limit 0 entries s
      .ok (⟨res.1, 0⟩, res.2)
    else do
      let entries ← getIterator pre m none req.reverse
      let res ← offsetLoop onResult req.offset (req.offset + limit) countTotal 0 none entries s
      .ok (⟨res.1.1, if countTotal then res.1.2 else 0⟩, res.2)

end Loops

/-- The limit `Paginate` serves a request with. -/
def PageRequest.effectiveLimit (req : PageRequest) : UInt64 :=
  if req.limit = 0 then DefaultLimit else req.limit

/-- Whether `Paginate` counts all entries. -/
def PageRequest.countsTotal (req : PageRequest) : Bool :=
  if req.limit = 0 then true else req.countTotal

theorem PageRequest.effectiveLimit_pos (req : PageRequest) : 0 < req.effectiveLimit.toNat := by
  unfold effectiveLimit
  split
  · decide
  · rename_i h
    apply Nat.pos_of_ne_zero
    intro h'
    exact h (UInt64.toNat_inj.mp h')

/-! ## §2 What a page holds -/

section Page

variable {σ ε : Type} {onResult : List UInt8 → List UInt8 → σ → Except ε σ}

/-- The callback on all entries of a page, in order. -/
def serve (onResult : List UInt8 → List UInt8 → σ → Except ε σ) (page : List StoreEntry)
    (s : σ) : Except (PageFault ε) σ :=
  page.foldlM (callback onResult) s

/-- The key of the first entry, if there is one. -/
def firstKey (es : List StoreEntry) : Option (List UInt8) := es.head?.map Prod.fst

theorem toNat_succ {count : UInt64} {n : ℕ} (h : count.toNat + (n + 1) < 2 ^ 64) :
    (count + 1).toNat = count.toNat + 1 := by
  rw [UInt64.toNat_add]
  exact Nat.mod_eq_of_lt (by simp; omega)

/-- With a key, a page holds the first entries of the iterator. -/
theorem keyLoop_eq {limit count : UInt64} (h : count ≤ limit) (es : List StoreEntry) (s : σ) :
    keyLoop onResult limit count es s =
      (serve onResult (es.take (limit.toNat - count.toNat)) s).map fun s =>
        (firstKey (es.drop (limit.toNat - count.toNat)), s) := by
  induction es generalizing count s with
  | nil => simp [keyLoop, serve, firstKey, Except.map, pure, Except.pure]
  | cons e es ih =>
    rw [keyLoop]
    split
    · rename_i heq
      rw [heq, Nat.sub_self, List.take_zero, List.drop_zero]
      rfl
    · rename_i hne
      have hlt : count.toNat < limit.toNat :=
        Nat.lt_of_le_of_ne (UInt64.le_iff_toNat_le.mp h) fun heq => hne (UInt64.toNat_inj.mp heq)
      have hsucc : (count + 1).toNat = count.toNat + 1 := by
        apply toNat_succ (n := 0)
        have := limit.toNat_lt
        omega
      have hsub : limit.toNat - count.toNat = (limit.toNat - (count + 1).toNat) + 1 := by omega
      have hle : count + 1 ≤ limit := UInt64.le_iff_toNat_le.mpr (by omega)
      rw [hsub, List.take_succ_cons, List.drop_succ_cons, serve, List.foldlM_cons]
      cases callback onResult s e with
      | error err => rfl
      | ok s => exact ih hle s

/-- The number an entry is counted by is the successor of the last only where that does not wrap. -/
theorem toNat_of_eq_succ {count stop : UInt64} (h : count = stop + 1) (hpos : 0 < count.toNat) :
    count.toNat = stop.toNat + 1 := by
  have hmod : count.toNat = (stop.toNat + 1) % 2 ^ 64 := by
    rw [h, UInt64.toNat_add]
    rfl
  have := stop.toNat_lt
  omega

/-- Behind the end, or with an end that wrapped to one before the offset, the loop only
counts. -/
theorem offsetLoop_counting {offset stop count : UInt64} {countTotal : Bool}
    {nextKey : Option (List UInt8)} {es : List StoreEntry}
    (hstop : stop.toNat < offset.toNat ∨ stop.toNat < count.toNat)
    (h : count.toNat + es.length < 2 ^ 64) (s : σ) :
    (offsetLoop onResult offset stop countTotal count nextKey es s : Except (PageFault ε) _) =
      .ok ((nextKey, .ofNat (count.toNat + es.length)), s) := by
  induction es generalizing count with
  | nil => simp [offsetLoop]
  | cons e es ih =>
    rw [List.length_cons] at h
    have hsucc := toNat_succ h
    have ih := @ih (count + 1) (by omega) (by omega)
    rw [hsucc] at ih
    have hlen : count.toNat + 1 + es.length = count.toNat + (e :: es).length := by
      rw [List.length_cons]
      omega
    rw [hlen] at ih
    simp only [offsetLoop]
    split
    · exact ih
    · rename_i hoffset
      rw [UInt64.le_iff_toNat_le] at hoffset
      rw [if_neg, if_neg]
      · exact ih
      · intro heq
        have := toNat_of_eq_succ heq (by omega)
        omega
      · rw [UInt64.le_iff_toNat_le]
        omega

/-- From an offset on, a page holds the entries of a window, as long as its end is a number of
64 bits. -/
theorem offsetLoop_eq {offset stop count : UInt64} {countTotal : Bool} {es : List StoreEntry}
    (hoffset : offset.toNat ≤ stop.toNat) (hcount : count.toNat ≤ stop.toNat)
    (h : count.toNat + es.length < 2 ^ 64) (s : σ) :
    ∃ last : UInt64, (countTotal = true → last = .ofNat (count.toNat + es.length)) ∧
      offsetLoop onResult offset stop countTotal count none es s =
        (serve onResult
          ((es.take (stop.toNat - count.toNat)).drop (offset.toNat - count.toNat)) s).map
            fun s => ((firstKey (es.drop (stop.toNat - count.toNat)), last), s) := by
  induction es generalizing count s with
  | nil =>
    refine ⟨count, fun _ => by simp, ?_⟩
    simp [offsetLoop, serve, firstKey, Except.map, pure, Except.pure]
  | cons e es ih =>
    rw [List.length_cons] at h
    have hsucc := toNat_succ h
    have hlen : count.toNat + (e :: es).length = (count + 1).toNat + es.length := by
      rw [List.length_cons, hsucc]
      omega
    rw [hlen]
    rcases Nat.lt_or_eq_of_le hcount with hlt | heq
    · -- an entry of the window, or one before it
      have hsub : stop.toNat - count.toNat = (stop.toNat - (count + 1).toNat) + 1 := by omega
      have hle : (count + 1) ≤ stop := UInt64.le_iff_toNat_le.mpr (by omega)
      simp only [offsetLoop, hle, if_true]
      rw [hsub, List.take_succ_cons, List.drop_succ_cons]
      have ih := fun s => @ih (count + 1) (by omega) (by omega) s
      split
      · rename_i hbefore
        rw [UInt64.le_iff_toNat_le] at hbefore
        have hdrop : offset.toNat - count.toNat = (offset.toNat - (count + 1).toNat) + 1 := by
          omega
        rw [hdrop, List.drop_succ_cons]
        exact ih s
      · rename_i hbehind
        rw [UInt64.le_iff_toNat_le] at hbehind
        have hzero : offset.toNat - count.toNat = 0 := by omega
        have hzero' : offset.toNat - (count + 1).toNat = 0 := by omega
        rw [hzero, List.drop_zero, serve, List.foldlM_cons]
        rw [hzero', List.drop_zero] at ih
        cases callback onResult s e with
        | error err => exact ⟨.ofNat ((count + 1).toNat + es.length), fun _ => rfl, rfl⟩
        | ok s => exact ih s
    · -- the first entry behind the window
      have hzero : stop.toNat - count.toNat = 0 := by omega
      have hnot : ¬ (count + 1) ≤ offset := by
        rw [UInt64.le_iff_toNat_le]
        omega
      have hnot' : ¬ (count + 1) ≤ stop := by
        rw [UInt64.le_iff_toNat_le]
        omega
      have hstop : count + 1 = stop + 1 := by rw [UInt64.toNat_inj.mp heq]
      simp only [offsetLoop]
      rw [if_neg hnot, if_neg hnot', if_pos hstop, hzero, List.take_zero, List.drop_zero,
        List.drop_nil]
      cases countTotal with
      | false => exact ⟨count + 1, nofun, rfl⟩
      | true =>
        refine ⟨_, fun _ => rfl, ?_⟩
        rw [if_pos rfl, offsetLoop_counting (.inr (by omega)) (by omega)]
        rfl

end Page

/-! ## §3 What the iterator visits -/

section Iterator

variable {ε : Type} {pre start : List UInt8} {m : ByteStore} {reverse : Bool}

/-- The entries under a prefix in the order of a direction. -/
def directed (reverse : Bool) (es : List StoreEntry) : List StoreEntry :=
  if reverse then es.reverse else es

theorem ordered_directed (reverse : Bool) :
    Ordered Prod.fst (KeyBefore reverse) (directed reverse (m.subEntries pre)) := by
  cases reverse with
  | false => exact ByteStore.ordered_subEntries
  | true => exact List.pairwise_reverse.mpr ByteStore.ordered_subEntries

theorem length_directed {es : List StoreEntry} : (directed reverse es).length = es.length := by
  cases reverse with
  | false => rfl
  | true => exact List.length_reverse

theorem mem_directed_iff {e : StoreEntry} :
    e ∈ directed reverse (m.subEntries pre) ↔ m.get pre e.1 = some e.2 := by
  have hmem : e ∈ directed reverse (m.subEntries pre) ↔ e ∈ m.subEntries pre := by
    cases reverse with
    | false => rfl
    | true => exact List.mem_reverse
  rw [hmem]
  exact ByteStore.mem_subEntries_iff

/-- From the beginning an iterator visits all entries. -/
theorem subIterator_all : m.subIterator pre [] none = m.subEntries pre := by
  rw [ByteStore.subIterator_eq_filter]
  apply List.filter_eq_self.mpr
  intro e _
  simp [InRange, keyLt_nil]

theorem subReverseIterator_all : m.subReverseIterator pre [] none = (m.subEntries pre).reverse := by
  rw [ByteStore.subReverseIterator_eq_reverse, subIterator_all]

theorem getIterator_none :
    (getIterator pre m none reverse : Except (PageFault ε) _) =
      .ok (directed reverse (m.subEntries pre)) := by
  cases reverse with
  | false => simp [getIterator, directed, subIterator_all]
  | true => simp [getIterator, directed, subReverseIterator_all]

/-- The entries from a key on. -/
theorem subIterator_from :
    m.subIterator pre start none = (m.subEntries pre).filter fun e => ¬ KeyLt e.1 start := by
  rw [ByteStore.subIterator_eq_filter]
  simp [InRange]

/-- Running back from the entry behind one is running back from that one. -/
theorem filter_keyLt_next {es after : List StoreEntry} {x next : StoreEntry}
    (h : Ordered Prod.fst KeyLt es)
    (hes : (es.filter fun e => ¬ KeyLt e.1 start) = x :: next :: after) :
    (es.filter fun e => KeyLt e.1 next.1) = es.filter fun e => ¬ KeyLt x.1 e.1 := by
  have hafter : Ordered Prod.fst KeyLt (x :: next :: after) := hes ▸ h.filter _
  obtain ⟨hx, hrest⟩ := List.pairwise_cons.mp hafter
  obtain ⟨hnext, -⟩ := List.pairwise_cons.mp hrest
  have hxnext := hx next List.mem_cons_self
  have hstart : ¬ KeyLt x.1 start := by
    have hmem : x ∈ es.filter fun e => ¬ KeyLt e.1 start := hes ▸ List.mem_cons_self
    exact of_decide_eq_true (List.mem_filter.mp hmem).2
  apply List.filter_congr
  intro e he
  rw [decide_eq_decide]
  by_cases hbefore : KeyLt e.1 start
  · -- an entry before the key
    have hlt : KeyLt e.1 x.1 := before_of_before_of_not hbefore hstart
    exact iff_of_true (keyLt_trans hlt hxnext) (keyLt_asymm hlt)
  · have hmem : e ∈ x :: next :: after := by
      rw [← hes, List.mem_filter]
      exact ⟨he, decide_eq_true hbefore⟩
    rcases List.mem_cons.mp hmem with rfl | hmem
    · exact iff_of_true hxnext (keyLt_irrefl _)
    · apply iff_of_false
      · rcases List.mem_cons.mp hmem with rfl | hmem
        · exact keyLt_irrefl _
        · exact keyLt_asymm (hnext e hmem)
      · exact not_not_intro (hx e hmem)

/-- In reverse an iterator runs back from the first entry that is not before the key. Where that
is the last entry of the store the lookup of the entry behind it panics. -/
theorem getIterator_reverse :
    (getIterator pre m (some start) true : Except (PageFault ε) _) =
      match (m.subEntries pre).filter fun e => ¬ KeyLt e.1 start with
      | [] => .ok (m.subEntries pre).reverse
      | [_] => .error .iteratorInvalid
      | x :: _ => .ok ((m.subEntries pre).filter fun e => ¬ KeyLt x.1 e.1).reverse := by
  simp only [getIterator, if_true, subIterator_from, subReverseIterator_all]
  cases hes : (m.subEntries pre).filter fun e => ¬ KeyLt e.1 start with
  | nil => rfl
  | cons x after =>
    cases after with
    | nil => rfl
    | cons next after =>
      have hnext : m.subReverseIterator pre [] (some next.1) =
          ((m.subEntries pre).filter fun e => KeyLt e.1 next.1).reverse := by
        rw [ByteStore.subReverseIterator_eq_reverse, ByteStore.subIterator_eq_filter]
        simp [InRange, keyLt_nil]
      rw [filter_keyLt_next ByteStore.ordered_subEntries hes] at hnext
      exact congrArg Except.ok hnext

/-- A cursor a page can be read from: in reverse, the key and a later one are stored. -/
def Resumes (reverse : Bool) (pre : List UInt8) (m : ByteStore) (cursor : List UInt8) : Prop :=
  cursor ≠ [] ∧ (reverse = true →
    m.get pre cursor ≠ none ∧ ∃ later, KeyLt cursor later ∧ m.get pre later ≠ none)

theorem getIterator_eq_visible {cursor : Option (List UInt8)}
    (h : ∀ c ∈ cursor, Resumes reverse pre m c) :
    (getIterator pre m cursor reverse : Except (PageFault ε) _) =
      .ok (visible Prod.fst (KeyBefore reverse) cursor (directed reverse (m.subEntries pre))) := by
  cases cursor with
  | none =>
    rw [getIterator_none, visible]
    simp
  | some start =>
    cases reverse with
    | false => simp [getIterator, directed, visible, subIterator_from, KeyBefore]
    | true =>
      obtain ⟨-, hstored⟩ := h start rfl
      obtain ⟨hstart, later, hlt, hlater⟩ := hstored rfl
      have hmem : ∀ {key}, ¬ KeyLt key start → m.get pre key ≠ none →
          ∃ value, (key, value) ∈ (m.subEntries pre).filter fun e => ¬ KeyLt e.1 start := by
        intro key hnot hkey
        obtain ⟨value, hvalue⟩ := Option.ne_none_iff_exists'.mp hkey
        exact ⟨value, List.mem_filter.mpr
          ⟨ByteStore.mem_subEntries_iff.mpr hvalue, decide_eq_true hnot⟩⟩
      obtain ⟨value, hstart⟩ := hmem (keyLt_irrefl _) hstart
      obtain ⟨value', hlater⟩ := hmem (keyLt_asymm hlt) hlater
      have hord : Ordered Prod.fst KeyLt ((m.subEntries pre).filter fun e => ¬ KeyLt e.1 start) :=
        ByteStore.ordered_subEntries.filter _
      rw [getIterator_reverse]
      cases hes : (m.subEntries pre).filter fun e => ¬ KeyLt e.1 start with
      | nil => exact absurd (hes ▸ hstart) List.not_mem_nil
      | cons x after =>
        rw [hes] at hstart hlater hord
        -- the key is the first of them, and the later one is another
        have hx : x.1 = start := by
          rcases List.mem_cons.mp hstart with heq | hafter
          · rw [← heq]
          · have hx : x ∈ (m.subEntries pre).filter fun e => ¬ KeyLt e.1 start :=
              hes ▸ List.mem_cons_self
            exact absurd ((List.pairwise_cons.mp hord).1 _ hafter)
              (of_decide_eq_true (List.mem_filter.mp hx).2)
        cases after with
        | nil =>
          have heq := List.mem_singleton.mp hlater
          rw [← hx, ← heq] at hlt
          exact absurd hlt (keyLt_irrefl _)
        | cons next after => simp [directed, visible, KeyBefore, hx]

end Iterator

/-! ## §4 Pages -/

section Paginate

variable {σ ε : Type} {onResult : List UInt8 → List UInt8 → σ → Except ε σ}
  {pre : List UInt8} {m : ByteStore} {req : PageRequest}

theorem map_bind_ok {φ α β γ : Type} {x : Except φ α} {f : α → β} {g : β → γ} :
    ((x.map f) >>= fun b => .ok (g b)) = x.map fun a => g (f a) := by
  cases x <;> rfl

/-- A page from a key on. -/
theorem paginate_key {key : List UInt8} (hkey : req.key = some key) (hne : key ≠ [])
    (hoffset : req.offset = 0) (s : σ) :
    paginate onResult pre m (some req) s = (do
      let es ← getIterator pre m (some key) req.reverse
      (serve onResult (es.take req.effectiveLimit.toNat) s).map fun s =>
        (⟨firstKey (es.drop req.effectiveLimit.toNat), 0⟩, s)) := by
  have hguard : ¬ (0 < req.offset ∧ req.key.isSome = true) := by
    rw [hoffset]
    exact fun h => absurd h.1 (by decide)
  have hlen : (req.key.getD []).length ≠ 0 := by
    rw [hkey]
    exact fun h => hne (List.eq_nil_of_length_eq_zero h)
  have hzero : (0 : UInt64) ≤ req.effectiveLimit := UInt64.le_iff_toNat_le.mpr (Nat.zero_le _)
  simp only [paginate, Option.getD_some]
  rw [if_neg hguard, if_pos hlen, hkey]
  cases getIterator pre m (some key) req.reverse with
  | error err => rfl
  | ok es =>
    show (keyLoop onResult req.effectiveLimit 0 es s >>= _) = _
    rw [keyLoop_eq hzero, map_bind_ok, UInt64.toNat_zero, Nat.sub_zero]
    rfl

/-- **A page from an offset on** is the window of the request, in the order of its direction. An
end of the window from `2 ^ 64` on wraps to one before the offset: the page is empty and has no
next key. The total is that of all entries either way. -/
theorem paginate_window (hkey : req.key = none ∨ req.key = some [] ∧ req.offset = 0)
    (hlength : (m.subEntries pre).length < 2 ^ 64) (s : σ) :
    paginate onResult pre m (some req) s =
      let es := directed req.reverse (m.subEntries pre)
      let total := if req.countsTotal then .ofNat (m.subEntries pre).length else 0
      if req.offset.toNat + req.effectiveLimit.toNat < 2 ^ 64 then
        (serve onResult ((es.drop req.offset.toNat).take req.effectiveLimit.toNat) s).map fun s =>
          (⟨firstKey (es.drop (req.offset.toNat + req.effectiveLimit.toNat)), total⟩, s)
      else .ok (⟨none, total⟩, s) := by
  have hguard : ¬ (0 < req.offset ∧ req.key.isSome = true) := by
    rintro ⟨hpos, hsome⟩
    rcases hkey with hnone | ⟨-, hzero⟩
    · rw [hnone] at hsome
      cases hsome
    · rw [hzero] at hpos
      exact absurd hpos (by decide)
  have hlen : ¬ (req.key.getD []).length ≠ 0 := by
    rcases hkey with hnone | ⟨hnil, -⟩
    · simp [hnone]
    · simp [hnil]
  have hes : (directed req.reverse (m.subEntries pre)).length = (m.subEntries pre).length :=
    length_directed
  have hsum : (req.offset + req.effectiveLimit).toNat =
      (req.offset.toNat + req.effectiveLimit.toNat) % 2 ^ 64 := UInt64.toNat_add ..
  have hcount : (0 : UInt64).toNat + (directed req.reverse (m.subEntries pre)).length < 2 ^ 64 := by
    rw [hes]
    simpa using hlength
  have hoffset := req.offset.toNat_lt
  have hlimit := req.effectiveLimit.toNat_lt
  simp only [paginate, Option.getD_some]
  rw [if_neg hguard, if_neg hlen, getIterator_none]
  show (offsetLoop onResult req.offset (req.offset + req.effectiveLimit) req.countsTotal 0 none
    (directed req.reverse (m.subEntries pre)) s >>= _) = _
  by_cases hwindow : req.offset.toNat + req.effectiveLimit.toNat < 2 ^ 64
  · rw [Nat.mod_eq_of_lt hwindow] at hsum
    have hle : req.offset.toNat ≤ (req.offset + req.effectiveLimit).toNat := by omega
    have hzero : (0 : UInt64).toNat ≤ (req.offset + req.effectiveLimit).toNat := by simp
    obtain ⟨last, htotal, hloop⟩ := @offsetLoop_eq _ _ onResult _ _ _
      req.countsTotal _ hle hzero hcount s
    have hall : (if req.countsTotal then last else 0) =
        if req.countsTotal then .ofNat (m.subEntries pre).length else 0 := by
      split
      · rename_i hcounts
        rw [htotal hcounts, hes, UInt64.toNat_zero, Nat.zero_add]
      · rfl
    rw [hloop, hsum, map_bind_ok, UInt64.toNat_zero, Nat.sub_zero, Nat.sub_zero, List.drop_take,
      Nat.add_sub_cancel_left, ← hall]
    exact (if_pos hwindow).symm
  · rw [offsetLoop_counting (.inl (by omega)) hcount, hes, UInt64.toNat_zero, Nat.zero_add]
    exact (if_neg hwindow).symm

theorem serve_ne_iteratorInvalid {page : List StoreEntry} {s : σ} :
    serve onResult page s ≠ .error .iteratorInvalid := by
  induction page generalizing s with
  | nil => exact nofun
  | cons e page ih =>
    rw [serve, List.foldlM_cons, callback]
    cases onResult e.1 e.2 s with
    | error err => exact nofun
    | ok s => exact ih

theorem map_ne_error {φ α β : Type} {x : Except φ α} {f : α → β} {err : φ} (h : x ≠ .error err) :
    x.map f ≠ .error err := by
  cases x with
  | error err' => exact fun heq => h (congrArg Except.error (Except.error.inj heq))
  | ok a => exact nofun

/-- A page from an offset on does not panic. -/
theorem paginate_window_ne_iteratorInvalid
    (hkey : req.key = none ∨ req.key = some [] ∧ req.offset = 0)
    (hlength : (m.subEntries pre).length < 2 ^ 64) {s : σ} :
    paginate onResult pre m (some req) s ≠ .error .iteratorInvalid := by
  rw [paginate_window hkey hlength]
  dsimp only
  split
  · exact map_ne_error serve_ne_iteratorInvalid
  · exact nofun

theorem paginate_offsetAndKey (hoffset : req.offset ≠ 0) (hkey : req.key ≠ none) (s : σ) :
    paginate onResult pre m (some req) s = .error .offsetAndKey := by
  have hpos : 0 < req.offset := by
    rw [UInt64.lt_iff_toNat_lt]
    apply Nat.pos_of_ne_zero
    intro h
    exact hoffset (UInt64.toNat_inj.mp h)
  exact if_pos ⟨hpos, Option.isSome_iff_ne_none.mpr hkey⟩

/-- Three entries under the prefix `1`. -/
def threeEntries : ByteStore := KVStore.set (KVStore.set (KVStore.set ∅ [1, 5] [50]) [1, 3] [30])
  [1, 9] [90]

/-- A callback that keeps the entries. -/
def keepEntry (key value : List UInt8) (s : List StoreEntry) : Except Unit (List StoreEntry) :=
  .ok (s ++ [(key, value)])

/-- **When a page panics**: only in reverse from a key, where exactly one stored key is not
before it. -/
theorem paginate_panics_iff (hlength : (m.subEntries pre).length < 2 ^ 64) (s : σ) :
    paginate onResult pre m (some req) s = .error .iteratorInvalid ↔
      req.reverse = true ∧ req.offset = 0 ∧ ∃ key, req.key = some key ∧ key ≠ [] ∧
        ((m.subEntries pre).filter fun e => ¬ KeyLt e.1 key).length = 1 := by
  cases hkey : req.key with
  | none =>
    apply iff_of_false (paginate_window_ne_iteratorInvalid (.inl hkey) hlength)
    rintro ⟨-, -, key, h, -⟩
    cases h
  | some key =>
    have hsome : req.key ≠ none := by
      rw [hkey]
      exact nofun
    by_cases hoffset : req.offset = 0
    · by_cases hne : key = []
      · rw [hne] at hkey
        apply iff_of_false (paginate_window_ne_iteratorInvalid (.inr ⟨hkey, hoffset⟩) hlength)
        rintro ⟨-, -, key', h, hne', -⟩
        exact hne' ((Option.some.inj h).symm.trans hne)
      · rw [paginate_key hkey hne hoffset]
        have hserve : ∀ es : List StoreEntry,
            (serve onResult (es.take req.effectiveLimit.toNat) s).map
              (fun s => ((⟨firstKey (es.drop req.effectiveLimit.toNat), 0⟩ : PageResponse), s)) ≠
                .error .iteratorInvalid := fun es => map_ne_error serve_ne_iteratorInvalid
        cases hrev : req.reverse with
        | false =>
          apply iff_of_false
          · exact hserve _
          · rintro ⟨h, -⟩
            cases h
        | true =>
          rw [getIterator_reverse]
          simp only [hoffset, Option.some.injEq, true_and, exists_eq_left', hne, ne_eq,
            not_false_iff]
          cases (m.subEntries pre).filter fun e => ¬ KeyLt e.1 key with
          | nil => exact iff_of_false (hserve _) (by simp)
          | cons x after =>
            cases after with
            | nil => exact iff_of_true rfl rfl
            | cons next after => exact iff_of_false (hserve _) (by simp)
    · rw [paginate_offsetAndKey hoffset hsome]
      apply iff_of_false nofun
      rintro ⟨-, h, -⟩
      exact hoffset h

theorem paginate_panics_iff_threeEntries :
    paginate keepEntry [1] threeEntries (some ⟨some [9], 0, 1, false, true⟩) [] =
      .error .iteratorInvalid :=
  (paginate_panics_iff (by decide) []).mpr ⟨rfl, rfl, [9], rfl, by simp, by decide⟩

end Paginate

/-! ## §5 Reading all pages -/

section Client

variable {φ β : Type}

/-- The request for what comes from a key on. -/
def PageRequest.resume (req : PageRequest) (cursor : Option (List UInt8)) : PageRequest :=
  { req with key := cursor, offset := 0 }

/-- A client that reads page by page, each request going on from the key it was told, while the
store is another one each time: what it was served when no key was left, and nothing where its
requests end before that. -/
def readPages (fetch : ByteStore → PageRequest → Except φ (PageResponse × List β))
    (cursor : Option (List UInt8)) : List (ByteStore × PageRequest) → Except φ (Option (List β))
  | [] => .ok none
  | (m, req) :: rest => do
    let res ← fetch m (req.resume cursor)
    match res.1.nextKey with
    | none => .ok (some res.2)
    | some key => (readPages fetch (some key) rest).map (Option.map (res.2 ++ ·))

variable {pre : List UInt8} {reverse : Bool} {fetch : ByteStore → PageRequest →
  Except φ (PageResponse × List β)} {g : StoreEntry → β}

/-- What a cursor sees of the store. -/
def seen (pre : List UInt8) (reverse : Bool) (cursor : Option (List UInt8)) (m : ByteStore) :
    List StoreEntry :=
  visible Prod.fst (KeyBefore reverse) cursor (directed reverse (m.subEntries pre))

theorem ordered_seen {cursor : Option (List UInt8)} {m : ByteStore} :
    Ordered Prod.fst (KeyBefore reverse) (seen pre reverse cursor m) :=
  (ordered_directed reverse).visible

/-- From a cursor it can resume at, a page holds the first entries the cursor sees. -/
theorem paginate_resume {σ ε : Type} {onResult : List UInt8 → List UInt8 → σ → Except ε σ}
    {m : ByteStore} {req : PageRequest} {cursor : Option (List UInt8)}
    (hlength : (m.subEntries pre).length < 2 ^ 64)
    (hcursor : ∀ c ∈ cursor, Resumes req.reverse pre m c) (s : σ) :
    ∃ total, paginate onResult pre m (some (req.resume cursor)) s =
      (serve onResult ((seen pre req.reverse cursor m).take req.effectiveLimit.toNat) s).map
        fun s => (⟨firstKey ((seen pre req.reverse cursor m).drop req.effectiveLimit.toNat),
          total⟩, s) := by
  have hiterator := getIterator_eq_visible (ε := ε) hcursor
  cases cursor with
  | none =>
    have hwindow : (0 : UInt64).toNat + req.effectiveLimit.toNat < 2 ^ 64 := by
      simpa using req.effectiveLimit.toNat_lt
    rw [getIterator_none] at hiterator
    rw [seen, ← Except.ok.inj hiterator]
    refine ⟨if req.countsTotal then .ofNat (m.subEntries pre).length else 0, ?_⟩
    rw [paginate_window (.inl rfl) hlength]
    show (if (0 : UInt64).toNat + req.effectiveLimit.toNat < 2 ^ 64 then
      Except.map _ (serve _ _ _) else _) = _
    rw [if_pos hwindow]
    simp only [PageRequest.resume, UInt64.toNat_zero, Nat.zero_add, List.drop_zero]
    rfl
  | some c =>
    refine ⟨0, ?_⟩
    rw [paginate_key rfl (hcursor c rfl).1 rfl]
    show (getIterator pre m (some c) req.reverse >>= _) = _
    rw [hiterator]
    rfl

/-- The callback of the pages gives one result for each entry of this store. -/
def Serves (fetch : ByteStore → PageRequest → Except φ (PageResponse × List β))
    (pre : List UInt8) (g : StoreEntry → β) (m : ByteStore) : Prop :=
  ∀ (req : PageRequest) (cursor : Option (List UInt8)),
    (∀ c ∈ cursor, Resumes req.reverse pre m c) →
    ∃ total, fetch m (req.resume cursor) =
      .ok (⟨firstKey ((seen pre req.reverse cursor m).drop req.effectiveLimit.toNat), total⟩,
        ((seen pre req.reverse cursor m).take req.effectiveLimit.toNat).map g)

/-- No key disappears from one request to the next. -/
def KeysStay (pre : List UInt8) (versions : List (ByteStore × PageRequest)) : Prop :=
  versions.IsChain fun v w => ∀ key, v.1.get pre key ≠ none → w.1.get pre key ≠ none

/-- What a page leaves begins with a key the next request can resume at. -/
theorem resumes_next {m m' : ByteStore} {cursor : Option (List UInt8)} {limit : ℕ}
    {x : StoreEntry} {after : List StoreEntry} (hkeys : m.get pre [] = none) (hlimit : 0 < limit)
    (hdrop : (seen pre reverse cursor m).drop limit = x :: after)
    (hstay : reverse = true → ∀ key, m.get pre key ≠ none → m'.get pre key ≠ none) :
    Resumes reverse pre m' x.1 := by
  have hstored : ∀ {e}, e ∈ seen pre reverse cursor m → m.get pre e.1 = some e.2 := fun he =>
    mem_directed_iff.mp (mem_visible_iff.mp he).1
  have hx := hstored (mem_visible_of_drop hdrop List.mem_cons_self)
  constructor
  · intro hnil
    rw [hnil, hkeys] at hx
    cases hx
  · intro hreverse
    subst hreverse
    refine ⟨hstay rfl _ (hx ▸ nofun), ?_⟩
    -- the page was not empty, and in reverse its entries are behind the next key
    have hne : seen pre true cursor m ≠ [] := by
      intro hnil
      rw [hnil, List.drop_nil] at hdrop
      cases hdrop
    obtain ⟨y, rest, hy⟩ := List.exists_cons_of_ne_nil hne
    have htake : y ∈ (seen pre true cursor m).take limit := by
      obtain ⟨n, rfl⟩ := Nat.exists_eq_succ_of_ne_zero (Nat.ne_of_gt hlimit)
      rw [hy]
      exact List.mem_cons_self
    have hlt : KeyBefore true y.1 x.1 :=
      ordered_seen.before_of_take_drop htake (hdrop ▸ List.mem_cons_self)
    exact ⟨y.1, hlt, hstay rfl _ ((hstored (List.mem_of_mem_take htake)) ▸ nofun)⟩

/-- The entry behind a page from an offset on, whose key the page tells. -/
theorem exists_behind_page {σ ε : Type} {onResult : List UInt8 → List UInt8 → σ → Except ε σ}
    {m : ByteStore} {req : PageRequest} {res : PageResponse} {key : List UInt8} {s s' : σ}
    (hlength : (m.subEntries pre).length < 2 ^ 64) (hkey : req.key = none)
    (hfit : req.offset.toNat + req.effectiveLimit.toNat < 2 ^ 64)
    (hpage : paginate onResult pre m (some req) s = .ok (res, s'))
    (hnext : res.nextKey = some key) :
    ∃ x after, (directed req.reverse (m.subEntries pre)).drop
      (req.offset.toNat + req.effectiveLimit.toNat) = x :: after ∧ x.1 = key := by
  rw [paginate_window (.inl hkey) hlength] at hpage
  dsimp only at hpage
  rw [if_pos hfit] at hpage
  cases hserve : serve onResult (((directed req.reverse (m.subEntries pre)).drop
      req.offset.toNat).take req.effectiveLimit.toNat) s with
  | error err =>
    rw [hserve] at hpage
    cases hpage
  | ok u =>
    rw [hserve] at hpage
    obtain ⟨rfl, -⟩ := Prod.mk.inj (Except.ok.inj hpage)
    obtain ⟨x, hx, hkey⟩ := Option.map_eq_some_iff.mp hnext
    obtain ⟨after, hafter⟩ := List.head?_eq_some_iff.mp hx
    exact ⟨x, after, hafter, hkey⟩

/-- **Going on from the next key is going on from the offset behind the page**, in either
direction: the same entries reach the callback, and the next key after them is the same. Only the
total differs, which a page from a key does not count. -/
theorem paginate_next_eq_offset {σ ε : Type} {onResult : List UInt8 → List UInt8 → σ → Except ε σ}
    {m : ByteStore} {req next : PageRequest} {res : PageResponse} {key : List UInt8} {s s' t : σ}
    (hlength : (m.subEntries pre).length < 2 ^ 64) (hkeys : m.get pre [] = none)
    (hkey : req.key = none) (hpage : paginate onResult pre m (some req) s = .ok (res, s'))
    (hnext : res.nextKey = some key) (hreverse : next.reverse = req.reverse)
    (hfit : req.offset.toNat + req.effectiveLimit.toNat + next.effectiveLimit.toNat < 2 ^ 64) :
    (paginate onResult pre m (some (next.resume (some key))) t).map (fun r => (r.1.nextKey, r.2)) =
      (paginate onResult pre m
        (some { next with key := none, offset := req.offset + req.effectiveLimit }) t).map
        fun r => (r.1.nextKey, r.2) := by
  have hsum : (req.offset + req.effectiveLimit).toNat =
      req.offset.toNat + req.effectiveLimit.toNat := by
    rw [UInt64.toNat_add, Nat.mod_eq_of_lt (by omega)]
  have hlimit := req.effectiveLimit_pos
  have hall : seen pre req.reverse none m = directed req.reverse (m.subEntries pre) :=
    List.filter_eq_self.mpr (by simp)
  obtain ⟨x, after, hdrop, rfl⟩ := exists_behind_page hlength hkey (by omega) hpage hnext
  have hresumes : Resumes next.reverse pre m x.1 := by
    rw [hreverse]
    exact resumes_next hkeys (by omega) (hall.symm ▸ hdrop) fun _ _ h => h
  have hseen : seen pre next.reverse (some x.1) m = x :: after := by
    rw [hreverse]
    exact (ordered_directed req.reverse).visible_next (hall.symm ▸ hdrop)
  have hcursor : ∀ c ∈ some x.1, Resumes next.reverse pre m c := by
    intro c hc
    rwa [← Option.some.inj hc]
  obtain ⟨total, hresume⟩ := @paginate_resume _ _ _ onResult m next (some x.1) hlength hcursor t
  have hwindow := @paginate_window _ _ onResult pre m
    { next with key := none, offset := req.offset + req.effectiveLimit } (.inl rfl) hlength t
  dsimp only at hwindow
  have hsame : PageRequest.effectiveLimit
      { next with key := none, offset := req.offset + req.effectiveLimit } =
        next.effectiveLimit := rfl
  rw [hsame, hsum, if_pos hfit, hreverse, hdrop, ← List.drop_drop, hdrop] at hwindow
  rw [hresume, hseen, hreverse, hwindow]
  cases serve onResult ((x :: after).take next.effectiveLimit.toNat) t with
  | error err => rfl
  | ok u => rfl

theorem paginate_next_eq_offset_threeEntries :
    (paginate keepEntry [1] threeEntries (some ⟨some [5], 0, 1, false, false⟩) []).map
        (fun r => (r.1.nextKey, r.2)) =
      (paginate keepEntry [1] threeEntries (some ⟨none, 1, 1, false, false⟩) []).map
        fun r => (r.1.nextKey, r.2) :=
  @paginate_next_eq_offset [1] _ _ keepEntry threeEntries ⟨none, 0, 1, false, false⟩
    ⟨none, 1, 1, false, false⟩ ⟨some [5], 0⟩ [5] [] [([3], [30])] [] (by decide) (by decide) rfl
    (by decide) rfl rfl (by decide)

/-- The walk through the entries of the versions. -/
def entriesWalk (pre : List UInt8) (reverse : Bool) (cursor : Option (List UInt8))
    (versions : List (ByteStore × PageRequest)) : Option (List StoreEntry) :=
  walk Prod.fst (KeyBefore reverse) cursor (versions.map fun v =>
    (directed reverse (v.1.subEntries pre), v.2.effectiveLimit.toNat))

variable {m : ByteStore} {req : PageRequest} {cursor : Option (List UInt8)}
  {versions : List (ByteStore × PageRequest)}

theorem entriesWalk_last
    (hdrop : (seen pre reverse cursor m).drop req.effectiveLimit.toNat = []) :
    entriesWalk pre reverse cursor ((m, req) :: versions) =
      some ((seen pre reverse cursor m).take req.effectiveLimit.toNat) :=
  walk_last hdrop

theorem entriesWalk_more {x : StoreEntry} {after : List StoreEntry}
    (hdrop : (seen pre reverse cursor m).drop req.effectiveLimit.toNat = x :: after) :
    entriesWalk pre reverse cursor ((m, req) :: versions) =
      (entriesWalk pre reverse (some x.1) versions).map
        ((seen pre reverse cursor m).take req.effectiveLimit.toNat ++ ·) :=
  walk_more hdrop

/-- **A client's pages are a walk** through the versions of the store. In reverse no key may
disappear between two requests. -/
theorem readPages_eq_walk (hreverse : ∀ v ∈ versions, v.2.reverse = reverse)
    (hserves : ∀ v ∈ versions, Serves fetch pre g v.1)
    (hkeys : ∀ v ∈ versions, v.1.get pre [] = none)
    (hstay : reverse = true → KeysStay pre versions)
    (hcursor : ∀ c ∈ cursor, ∀ v ∈ versions.head?, Resumes reverse pre v.1 c) :
    readPages fetch cursor versions =
      .ok ((entriesWalk pre reverse cursor versions).map (List.map g)) := by
  induction versions generalizing cursor with
  | nil => rfl
  | cons v versions ih =>
    obtain ⟨m, req⟩ := v
    have hreq : req.reverse = reverse := hreverse _ List.mem_cons_self
    obtain ⟨total, hpage⟩ := hserves _ List.mem_cons_self req cursor fun c hc =>
      hreq ▸ hcursor c hc _ rfl
    rw [hreq] at hpage
    rw [readPages, hpage]
    cases hdrop : (seen pre reverse cursor m).drop req.effectiveLimit.toNat with
    | nil =>
      rw [entriesWalk_last hdrop]
      rfl
    | cons x after =>
      have ih := @ih (some x.1) (fun v hv => hreverse v (List.mem_cons_of_mem _ hv))
        (fun v hv => hserves v (List.mem_cons_of_mem _ hv))
        (fun v hv => hkeys v (List.mem_cons_of_mem _ hv))
        (fun h => (hstay h).of_cons) (fun c hc w hw => by
          cases hc
          apply resumes_next (hkeys _ List.mem_cons_self) req.effectiveLimit_pos hdrop
          intro h
          obtain ⟨versions, rfl⟩ := List.head?_eq_some_iff.mp hw
          exact (List.isChain_cons_cons.mp (hstay h)).1)
      rw [entriesWalk_more hdrop]
      show (readPages fetch (some x.1) versions).map _ = _
      rw [ih]
      simp [Except.map, Function.comp_def]

theorem keysStay_map {reqs : List PageRequest} :
    KeysStay pre (reqs.map fun req => (m, req)) := by
  apply List.Pairwise.isChain
  rw [List.pairwise_map]
  exact List.pairwise_of_forall fun _ _ _ h => h

/-- **A client reads all of a store** that stays as it is, whatever the limits of its requests
are: it needs at most one request more than there are entries. -/
theorem readPages_all {reqs : List PageRequest} (hreverse : ∀ req ∈ reqs, req.reverse = reverse)
    (hserves : Serves fetch pre g m) (hkeys : m.get pre [] = none)
    (henough : (m.subEntries pre).length < reqs.length) :
    readPages fetch none (reqs.map fun req => (m, req)) =
      .ok (some ((directed reverse (m.subEntries pre)).map g)) := by
  have hversion : ∀ v ∈ reqs.map fun req => (m, req), v.1 = m ∧ v.2.reverse = reverse := by
    intro v hv
    obtain ⟨req, hreq, rfl⟩ := List.mem_map.mp hv
    exact ⟨rfl, hreverse req hreq⟩
  have hall : visible Prod.fst (KeyBefore reverse) none (directed reverse (m.subEntries pre)) =
      directed reverse (m.subEntries pre) := List.filter_eq_self.mpr (by simp)
  rw [readPages_eq_walk (fun v hv => (hversion v hv).2) (fun v hv => (hversion v hv).1 ▸ hserves)
    (fun v hv => (hversion v hv).1 ▸ hkeys) (fun _ => keysStay_map) (by simp), entriesWalk,
    walk_eq (ordered_directed reverse), hall]
  · rfl
  · intro version hversion
    simp only [List.map_map, List.mem_map, Function.comp_apply] at hversion
    obtain ⟨req, -, rfl⟩ := hversion
    exact ⟨rfl, req.effectiveLimit_pos⟩
  · rw [hall, List.length_map, List.length_map, length_directed]
    exact henough

end Client

end GenesisEthermint.Chain
