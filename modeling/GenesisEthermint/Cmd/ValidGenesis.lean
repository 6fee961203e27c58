import GenesisEthermint.Cmd.AddGenesisAccount
import GenesisEthermint.Foundation.Run

/-!
# The Genesis File over Many Invocations

The command keeps most of what makes a genesis file valid: the supply, one account and one balance
for an address, and an account for every balance. The coins of the new balance it takes as they
come out of the parser, and there two typed coins can have become one denomination, and a coin can
have become nothing.
-/

namespace GenesisEthermint.Cmd

open GenesisEthermint.Foundation GenesisEthermint.Types

variable {host : Host} {inv : Invocation} {g g' : GenesisFile} {u : Unit} {typed : List DecCoin}
  {coins : List Coin}

/-- **A valid genesis file**: the supply is what the balances add up to, denomination by
denomination, every balance is a proper coin list, no address has two balances or two accounts, and
every balance belongs to an account. -/
structure ValidGenesis (g : GenesisFile) : Prop where
  supply : ∀ d, total g.supply d = (g.balances.map fun b => total b.coins d).sum
  proper : ∀ b ∈ g.balances, Proper b.coins
  balances_once : (g.balances.map Balance.address).Nodup
  accounts_once : (g.accounts.map GenesisAccount.getAddress).Nodup
  owned : ∀ b ∈ g.balances, ∃ acc ∈ g.accounts, acc.getAddress = b.address

/-! ## Typed coins that stay proper -/

/-- The typed coins are not in both units of the token, and there is at least one whole coin of
everything that is not typed in the display unit. -/
structure StaysProper (typed : List DecCoin) : Prop where
  one_unit : ¬ (DisplayDenom ∈ typed.map DecCoin.denom ∧ AttoPhoton ∈ typed.map DecCoin.denom)
  whole : ∀ c ∈ typed, c.denom ≠ DisplayDenom → precisionReuse ≤ c.amount

private theorem normalized_display {c : DecCoin} (h : c.denom = DisplayDenom) :
    normalized c = (AttoPhoton, (c.amount : ℤ)) := if_pos h

private theorem normalized_other {c : DecCoin} (h : c.denom ≠ DisplayDenom) :
    normalized c = (c.denom, ((c.amount / precisionReuse : ℕ) : ℤ)) := if_neg h

/-- Two typed coins become one denomination only as the two units of the token. -/
private theorem nodup_normalized_iff (h : (typed.map DecCoin.denom).Nodup) :
    (typed.map fun c => (normalized c).1).Nodup ↔
      ¬ (DisplayDenom ∈ typed.map DecCoin.denom ∧ AttoPhoton ∈ typed.map DecCoin.denom) := by
  -- only `L1coin` changes its name, so only it can meet another unit
  have hne : AttoPhoton ≠ DisplayDenom := by decide
  constructor
  · rintro hnodup ⟨hdisplay, hatto⟩
    obtain ⟨c, hc, hcd⟩ := List.mem_map.mp hdisplay
    obtain ⟨c', hc', hcd'⟩ := List.mem_map.mp hatto
    have hsame : (normalized c).1 = (normalized c').1 := by
      rw [normalized_display hcd, normalized_other (hcd' ▸ hne), hcd']
    have heq := List.inj_on_of_nodup_map hnodup hc hc' hsame
    exact hne (hcd'.symm.trans ((congrArg DecCoin.denom heq).symm.trans hcd))
  · intro hboth
    refine List.Nodup.map_on (fun c hc c' hc' hsame => ?_) (List.Nodup.of_map _ h)
    refine List.inj_on_of_nodup_map h hc hc' ?_
    -- both display, one of the two, or neither
    by_cases hd : c.denom = DisplayDenom <;> by_cases hd' : c'.denom = DisplayDenom
    · exact hd.trans hd'.symm
    · rw [normalized_display hd, normalized_other hd'] at hsame
      replace hsame : AttoPhoton = c'.denom := hsame
      exact absurd ⟨hd ▸ List.mem_map_of_mem hc, hsame ▸ List.mem_map_of_mem hc'⟩ hboth
    · rw [normalized_other hd, normalized_display hd'] at hsame
      replace hsame : c.denom = AttoPhoton := hsame
      exact absurd ⟨hd' ▸ List.mem_map_of_mem hc', hsame ▸ List.mem_map_of_mem hc⟩ hboth
    · rwa [normalized_other hd, normalized_other hd'] at hsame

private theorem pos_normalized_iff {c : DecCoin} (h : 0 < c.amount) :
    0 < (normalized c).2 ↔ (c.denom ≠ DisplayDenom → precisionReuse ≤ c.amount) := by
  by_cases hd : c.denom = DisplayDenom
  · rw [normalized_display hd]
    exact iff_of_true (Int.natCast_pos.mpr h) fun hne => absurd hd hne
  · rw [normalized_other hd]
    simp only [Int.natCast_pos, Nat.div_pos_iff, hd, ne_eq, not_false_eq_true, true_imp_iff]
    exact ⟨fun h => h.2, fun h => ⟨by decide, h⟩⟩

/-- **When the parsed coins are proper**, once they are sorted. -/
theorem proper_parsed_iff (htyped : parseDecCoins host.srt inv.coins = .ok typed)
    (hcoins : parseCoinsNormalized host.srt inv.coins = .ok coins) :
    Proper (sortCoins host.srt coins) ↔ StaysProper typed := by
  obtain ⟨typed', htyped', hmap⟩ := parseCoinsNormalized_ok hcoins
  obtain rfl := Except.ok.inj (htyped.symm.trans htyped')
  obtain ⟨hnodup, hpos⟩ := nodup_of_parseDecCoins htyped
  have hdenoms : coins.map Coin.denom = typed.map fun c => (normalized c).1 := by
    have := congrArg (List.map Prod.fst) hmap
    rwa [List.map_map, List.map_map] at this
  have hamounts : coins.map (fun c => c.amount.val) = typed.map fun c => (normalized c).2 := by
    have := congrArg (List.map Prod.snd) hmap
    rwa [List.map_map, List.map_map] at this
  have hall : (∀ c ∈ coins, 0 < c.amount.val) ↔ ∀ c ∈ typed, 0 < (normalized c).2 := by
    have hl := List.forall_mem_map (l := coins) (f := fun c => c.amount.val)
      (P := fun x => 0 < x)
    rw [← hl, hamounts, List.forall_mem_map]
  rw [proper_sortCoins_iff, hdenoms, nodup_normalized_iff hnodup, hall]
  constructor
  · rintro ⟨hunits, hwhole⟩
    exact ⟨hunits, fun c hc => (pos_normalized_iff (hpos c hc)).mp (hwhole c hc)⟩
  · rintro ⟨hunits, hwhole⟩
    exact ⟨hunits, fun c hc => (pos_normalized_iff (hpos c hc)).mpr (hwhole c hc)⟩

/-! ## One invocation -/

/-- **An accepted invocation keeps a valid file valid** exactly if its typed coins stay proper. -/
theorem valid_addGenesisAccount_iff (hg : ValidGenesis g)
    (h : addGenesisAccount host inv g = .ok u g')
    (htyped : parseDecCoins host.srt inv.coins = .ok typed) :
    ValidGenesis g' ↔ StaysProper typed := by
  obtain ⟨addr, coins, acc, supply, -, hcoins, rfl, hnew, hsupply, rfl⟩ := addGenesisAccount_ok h
  have haccs : (sanitizeGenesisAccounts host.srt (g.accounts ++ [acc])).Perm
      (g.accounts ++ [acc]) := host.srt.perm _ _
  have hbalances : (sanitizeGenesisBalances host.srt
      (g.balances ++ [⟨acc.getAddress, sortCoins host.srt coins⟩])).Perm
      (g.balances ++ [⟨acc.getAddress, sortCoins host.srt coins⟩]) := host.srt.perm _ _
  rw [← proper_parsed_iff htyped hcoins]
  constructor
  · intro hvalid
    exact hvalid.proper ⟨acc.getAddress, sortCoins host.srt coins⟩
      (hbalances.mem_iff.mpr (List.mem_append_right _ (List.mem_singleton_self _)))
  · intro hproper
    -- a balance at the address would belong to an account there
    have hfresh : ∀ b ∈ g.balances, b.address ≠ acc.getAddress := by
      intro b hb heq
      obtain ⟨a, ha, hab⟩ := hg.owned b hb
      exact hnew a ha (hab.trans heq)
    constructor
    · intro d
      dsimp only
      rw [total_safeAdd hsupply, hg.supply, (hbalances.map _).sum_eq, List.map_append,
        List.sum_append, List.map_singleton, List.sum_singleton]
    · intro b hb
      rcases List.mem_append.mp (hbalances.mem_iff.mp hb) with hb | hb
      · exact hg.proper b hb
      · obtain rfl := List.mem_singleton.mp hb
        exact hproper
    · dsimp only
      rw [(hbalances.map _).nodup_iff, List.map_append, List.nodup_append]
      refine ⟨hg.balances_once, List.nodup_singleton _, fun a ha a' ha' => ?_⟩
      obtain ⟨b, hb, rfl⟩ := List.mem_map.mp ha
      obtain rfl := List.mem_singleton.mp ha'
      exact hfresh b hb
    · dsimp only
      rw [(haccs.map _).nodup_iff, List.map_append, List.nodup_append]
      refine ⟨hg.accounts_once, List.nodup_singleton _, fun a ha a' ha' => ?_⟩
      obtain ⟨b, hb, rfl⟩ := List.mem_map.mp ha
      obtain rfl := List.mem_singleton.mp ha'
      exact hnew b hb
    · intro b hb
      rcases List.mem_append.mp (hbalances.mem_iff.mp hb) with hb | hb
      · obtain ⟨a, ha, hab⟩ := hg.owned b hb
        exact ⟨a, haccs.mem_iff.mpr (List.mem_append_left _ ha), hab⟩
      · obtain rfl := List.mem_singleton.mp hb
        exact ⟨acc, haccs.mem_iff.mpr (List.mem_append_right _ (List.mem_singleton_self _)), rfl⟩

/-! ## Many invocations -/

/-- Run the command once: a command that fails leaves the file as it was. -/
def submit (host : Host) (g : GenesisFile) (inv : Invocation) : GenesisFile :=
  Exec.deliver (addGenesisAccount host inv) g

/-- The condition on an invocation that is accepted. -/
def KeepsProper (host : Host) (g : GenesisFile) (inv : Invocation) : Prop :=
  ∀ g' typed, addGenesisAccount host inv g = .ok () g' →
    parseDecCoins host.srt inv.coins = .ok typed → StaysProper typed

/-- An accepted invocation has typed coins. -/
private theorem exists_typed (h : addGenesisAccount host inv g = .ok u g') :
    ∃ typed, parseDecCoins host.srt inv.coins = .ok typed := by
  obtain ⟨_, _, _, _, -, hcoins, -⟩ := addGenesisAccount_ok h
  obtain ⟨typed, htyped, -⟩ := parseCoinsNormalized_ok hcoins
  exact ⟨typed, htyped⟩

/-- **One step** from a valid file. -/
theorem valid_submit_iff (hg : ValidGenesis g) :
    ValidGenesis (submit host g inv) ↔ KeepsProper host g inv := by
  rcases Exec.deliver_cases (addGenesisAccount host inv) g with ⟨_, hok⟩ | hfail
  · obtain ⟨typed, htyped⟩ := exists_typed hok
    rw [submit, valid_addGenesisAccount_iff hg hok htyped]
    constructor
    · intro hproper _ typed' _ htyped'
      obtain rfl := Except.ok.inj (htyped.symm.trans htyped')
      exact hproper
    · exact fun hkeeps => hkeeps _ typed hok htyped
  · rw [submit, hfail]
    refine iff_of_true hg fun g' typed hok htyped => ?_
    -- an accepted invocation that changed nothing still added its account
    have hsame : g' = g := (Exec.deliver_of_ok hok).symm.trans hfail
    subst hsame
    exact (valid_addGenesisAccount_iff hg hok htyped).mp hg

/-- **Which runs keep a valid file valid**: those whose accepted invocations all type coins that
stay proper. -/
theorem valid_run_iff (host : Host) (hg : ValidGenesis g) (invs : List Invocation) :
    (∀ before after, invs = before ++ after → ValidGenesis (run (submit host) g before)) ↔
      Along (submit host) (KeepsProper host) g invs := by
  constructor
  · intro hall
    induction invs generalizing g with
    | nil => trivial
    | cons inv invs ih =>
      have hnext : ValidGenesis (submit host g inv) := hall [inv] invs rfl
      refine ⟨(valid_submit_iff hg).mp hnext, ih hnext fun before after hsplit => ?_⟩
      exact hall (inv :: before) after (congrArg (inv :: ·) hsplit)
  · rintro halong before after rfl
    exact run_preserves (P := ValidGenesis) (fun _ _ hs hop => (valid_submit_iff hs).mpr hop) hg
      (along_append.mp halong).1

/-! ## Three invocations -/

/-- A genesis file without accounts. -/
def emptyFile : GenesisFile := ⟨[], [], []⟩

theorem valid_emptyFile : ValidGenesis emptyFile where
  supply _ := rfl
  proper _ hb := by cases hb
  balances_once := List.nodup_nil
  accounts_once := List.nodup_nil
  owned _ hb := by cases hb

/-- A host that sorts by insertion. -/
def plainHost : Host := ⟨Sorter.insertion, fun a => String.ofList (hexEncode a)⟩

/-- An invocation with these coins for the address that is twenty times this byte. -/
def invocationAt (byte : UInt8) (coins : String) : Invocation :=
  ⟨.ok (List.replicate 20 byte), coins, 0, 0, ""⟩

private theorem keepsProper_of_decide {coins : String} {byte : UInt8} {typed : List DecCoin}
    (h : (parseDecCoins plainHost.srt coins).toOption = some typed) (hproper : StaysProper typed) :
    KeepsProper plainHost g (invocationAt byte coins) := by
  rintro g' typed' - htyped'
  have heq : parseDecCoins plainHost.srt coins = .ok typed' := htyped'
  rw [heq] at h
  obtain rfl := Option.some.inj h
  exact hproper

theorem valid_run_iff_twoAccounts :
    ValidGenesis (run (submit plainHost) emptyFile
      [invocationAt 1 "1.5L1coin,7acoin", invocationAt 2 "3aphoton"]) := by
  have hvalid := valid_run_iff plainHost valid_emptyFile
    [invocationAt 1 "1.5L1coin,7acoin", invocationAt 2 "3aphoton"]
  refine hvalid.mpr ⟨?_, ?_, trivial⟩ _ [] (List.append_nil _).symm
  · have htyped : (parseDecCoins plainHost.srt "1.5L1coin,7acoin").toOption =
        some [⟨"L1coin", 15 * 10 ^ 17⟩, ⟨"acoin", 7 * 10 ^ 18⟩] := by decide +kernel
    exact keepsProper_of_decide htyped ⟨by decide, by decide⟩
  · have htyped : (parseDecCoins plainHost.srt "3aphoton").toOption =
        some [⟨"aphoton", 3 * 10 ^ 18⟩] := by decide +kernel
    exact keepsProper_of_decide htyped ⟨by decide, by decide⟩

/-- **Two units of the token make an invalid balance.** The file is valid, the invocation is
accepted, and the file is not valid afterwards. -/
theorem not_valid_twoUnits : ValidGenesis emptyFile ∧
    (∃ g', addGenesisAccount plainHost (invocationAt 1 "1L1coin,5aphoton") emptyFile = .ok () g') ∧
    ¬ ValidGenesis (submit plainHost emptyFile (invocationAt 1 "1L1coin,5aphoton")) := by
  have htyped : (parseDecCoins plainHost.srt "1L1coin,5aphoton").toOption =
      some [⟨"L1coin", 10 ^ 18⟩, ⟨"aphoton", 5 * 10 ^ 18⟩] := by decide +kernel
  obtain ⟨g', hok⟩ := Exec.exists_ok (by decide +kernel :
    (addGenesisAccount plainHost (invocationAt 1 "1L1coin,5aphoton")).succeeds emptyFile = true)
  obtain ⟨typed, htyped'⟩ := exists_typed hok
  refine ⟨valid_emptyFile, ⟨g', hok⟩, fun hvalid => ?_⟩
  have hproper := (valid_submit_iff valid_emptyFile).mp hvalid g' typed hok htyped'
  have heq : parseDecCoins plainHost.srt "1L1coin,5aphoton" = .ok typed := htyped'
  rw [heq] at htyped
  obtain rfl := Option.some.inj htyped
  exact hproper.one_unit ⟨by decide, by decide⟩

end GenesisEthermint.Cmd
