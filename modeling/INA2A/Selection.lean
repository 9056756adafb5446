import INA2A.Interference
import INA2A.Tokens

/-! The experts a host selects for a token are the experts the switch decodes, and no two tokens
share a combine key. -/
namespace INA2A

open ByteBuffers BitWords

variable {N : ℕ}

theorem ofBits_decodeExpertIds (bitmap : U64) {n : ℕ} (hpos : 0 < n) (hn : n ≤ 64) :
    ofBits 64 (decodeExpertIds bitmap n) = if low bitmap n = 0 then 1 else low bitmap n := by
  have hscan := scannedIds_eq bitmap hn
  split_ifs with hlow
  · rw [decodeExpertIds_fallback (hscan.trans (bits_eq_nil.mpr hlow)) hpos]
    rfl
  · have hsome : scannedIds bitmap n ≠ [] := by
      rw [hscan]
      exact fun hnil => hlow (bits_eq_nil.mp hnil)
    rw [decodeExpertIds_scanned hsome,hscan,ofBits_bits]

theorem findTargets_connected (hosts : Fin N → Bool) (hall : ∀ g, hosts g = true) (ids : List ℕ)
    (hlt : ∀ id ∈ ids, id < N) : (findTargets hosts ids).map Fin.val = ids := by
  induction ids with
  | nil => rfl
  | cons id ids ih =>
    have hid : id < N := hlt id List.mem_cons_self
    have hrest := ih fun e he => hlt e (List.mem_cons_of_mem id he)
    rw [findTargets,List.filterMap_cons_some (b := ⟨id,hid⟩) (by simp [hid,hall]),List.map_cons]
    exact congrArg (id :: ·) hrest

theorem expectedBitmap_connected (hN : N ≤ 64) (hosts : Fin N → Bool) (hall : ∀ g, hosts g = true)
    (bitmap : U64) (hlow : low bitmap N ≠ 0) :
    expectedBitmap (findTargets hosts (decodeExpertIds bitmap N)) = low bitmap N := by
  have hpos : 0 < N := by
    by_contra h0
    obtain rfl : N = 0 := by omega
    refine hlow ((eq_zero_iff _).mpr fun i => ?_)
    rw [getLsbD_low]
    simp
  rw [expectedBitmap,findTargets_connected hosts hall _ fun id hid => decodeExpertIds_lt hid,
    ofBits_decodeExpertIds bitmap hpos hN,if_neg hlow]

theorem clampTopk_eq {n : ℕ} (hn : 0 < n) (topk : ℤ) :
    (clampTopk n topk).toNat = min (max topk 1).toNat n := by
  unfold clampTopk
  dsimp only
  split_ifs <;> omega

section Shuffled

variable {n : ℕ} {shuffled : List ℕ} (hshuffled : shuffled.Perm (List.range n)) (topk : ℤ)

include hshuffled

theorem chosen_lt (k : ℕ) : ∀ e ∈ shuffled.take k, e < n := by
  intro e he
  exact List.mem_range.mp (hshuffled.mem_iff.mp (List.mem_of_mem_take he))

theorem chosen_nodup (k : ℕ) : (shuffled.take k).Nodup :=
  (hshuffled.nodup_iff.mpr List.nodup_range).sublist (List.take_sublist k shuffled)

theorem popcount_chooseTopkBitmap (hpos : 0 < n) (hn : n ≤ 64) :
    popcount (chooseTopkBitmap n topk shuffled) = min (max topk 1).toNat n := by
  have hlt : ∀ e ∈ shuffled.take (clampTopk n topk).toNat, e < 64 := by
    intro e he
    exact (chosen_lt hshuffled _ e he).trans_le hn
  have hlen : shuffled.length = n := by rw [hshuffled.length_eq,List.length_range]
  rw [chooseTopkBitmap_eq n hpos,popcount_ofBits (chosen_nodup hshuffled _) hlt,List.length_take,
    clampTopk_eq hpos,hlen,min_assoc,min_self]

theorem chooseTopkBitmap_lt (hpos : 0 < n) {e : ℕ}
    (he : (chooseTopkBitmap n topk shuffled).getLsbD e = true) : e < n := by
  rw [chooseTopkBitmap_eq n hpos,getLsbD_ofBits,Bool.and_eq_true,decide_eq_true_eq] at he
  exact chosen_lt hshuffled _ e he.1

theorem chooseTopkBitmap_ne_zero (hpos : 0 < n) (hn : n ≤ 64) :
    low (chooseTopkBitmap n topk shuffled) n ≠ 0 := by
  intro hzero
  have hcount := popcount_chooseTopkBitmap hshuffled topk hpos hn
  have hbits : chooseTopkBitmap n topk shuffled = 0 := by
    rw [eq_zero_iff]
    intro e
    by_contra hbit
    have hset := Bool.eq_true_of_not_eq_false hbit
    have hlow := (eq_zero_iff _).mp hzero e
    rw [getLsbD_low,hset,decide_eq_true (chooseTopkBitmap_lt hshuffled topk hpos hset)] at hlow
    exact absurd hlow (by decide)
  have hnone : popcount (0 : U64) = 0 := by decide
  rw [hbits,hnone] at hcount
  omega

/-- The switch reads back the positions the host chose, in order and without the fallback. -/
theorem decodeExpertIds_chosen (hpos : 0 < n) (hn : n ≤ 64) :
    scannedIds (chooseTopkBitmap n topk shuffled) n ≠ [] ∧
      decodeExpertIds (chooseTopkBitmap n topk shuffled) n =
        bits (chooseTopkBitmap n topk shuffled) n := by
  have hscan := scannedIds_eq (chooseTopkBitmap n topk shuffled) hn
  have hsome : scannedIds (chooseTopkBitmap n topk shuffled) n ≠ [] := by
    intro hnil
    exact chooseTopkBitmap_ne_zero hshuffled topk hpos hn (bits_eq_nil.mp (hscan.symm.trans hnil))
  exact ⟨hsome,(decodeExpertIds_scanned hsome).trans hscan⟩

end Shuffled

/-- The arguments of one host's `make_workload`, `srcRank` as the 32-bit word a token keeps. -/
structure WorkloadArgs where
  runId : U64
  numTokens : ℕ
  srcRank : ℕ
  numHosts : ℤ
  topk : ℤ
  shuffle : ℕ → List ℕ
  numTokens_lt : numTokens < 2 ^ 31
  srcRank_lt : srcRank < 2 ^ 32

def WorkloadArgs.tokens (a : WorkloadArgs) : List TokenDesc :=
  makeWorkload a.runId a.numTokens a.srcRank a.numHosts a.topk a.shuffle

theorem WorkloadArgs.tokens_get {a : WorkloadArgs} {i : ℕ} {t : TokenDesc}
    (h : a.tokens[i]? = some t) :
    i < a.numTokens ∧ t.tokenId = BitVec.ofNat 64 i ∧ t.originRank = BitVec.ofNat 32 a.srcRank := by
  rw [WorkloadArgs.tokens,makeWorkload,List.getElem?_map,Option.map_eq_some_iff] at h
  obtain ⟨j,hj,rfl⟩ := h
  obtain ⟨hlt,rfl⟩ := List.getElem?_eq_some_iff.mp hj
  rw [List.length_range] at hlt
  rw [List.getElem_range]
  exact ⟨hlt,rfl,rfl⟩

theorem ofNat_inj {w i j : ℕ} (hi : i < 2 ^ w) (hj : j < 2 ^ w)
    (h : BitVec.ofNat w i = BitVec.ofNat w j) : i = j := by
  have hnat := congrArg BitVec.toNat h
  rwa [BitVec.toNat_ofNat,BitVec.toNat_ofNat,Nat.mod_eq_of_lt hi,Nat.mod_eq_of_lt hj] at hnat

theorem WorkloadArgs.key_inj {a b : WorkloadArgs} {i j : ℕ} {t u : TokenDesc} {ts ts' : U64}
    (ht : a.tokens[i]? = some t) (hu : b.tokens[j]? = some u)
    (hkey : makeKey (dispatchTokenMsg t i ts).header = makeKey (dispatchTokenMsg u j ts').header) :
    a.srcRank = b.srcRank ∧ i = j := by
  obtain ⟨hi,htoken,horigin⟩ := WorkloadArgs.tokens_get ht
  obtain ⟨hj,htoken',horigin'⟩ := WorkloadArgs.tokens_get hu
  have hrank : t.originRank = u.originRank := congrArg CombineKey.originRank hkey
  have hid : t.tokenId = u.tokenId := congrArg CombineKey.tokenId hkey
  rw [horigin,horigin'] at hrank
  rw [htoken,htoken'] at hid
  have hm := a.numTokens_lt
  have hn := b.numTokens_lt
  exact ⟨ofNat_inj a.srcRank_lt b.srcRank_lt hrank,ofNat_inj (by omega) (by omega) hid⟩

/-- What host and switch agree on when the host sends `bitmap`. -/
structure Agrees (n : ℕ) (bitmap : U64) : Prop where
  below : ∀ e, bitmap.getLsbD e = true → e < n
  direct : scannedIds bitmap n ≠ [] ∧ decodeExpertIds bitmap n = scannedIds bitmap n
  decoded : ∀ e, e ∈ decodeExpertIds bitmap n ↔ bitmap.getLsbD e = true
  increasing : (decodeExpertIds bitmap n).Pairwise (· < ·)

theorem chosen_agrees {n : ℕ} (hpos : 0 < n) (hn : n ≤ 64) (topk : ℤ) {shuffled : List ℕ}
    (hshuffled : shuffled.Perm (List.range n)) : Agrees n (chooseTopkBitmap n topk shuffled) := by
  obtain ⟨hsome,hbits⟩ := decodeExpertIds_chosen hshuffled topk hpos hn
  constructor
  · intro e he
    exact chooseTopkBitmap_lt hshuffled topk hpos he
  · exact ⟨hsome,decodeExpertIds_scanned hsome⟩
  · intro e
    rw [hbits,mem_bits]
    exact ⟨fun h => h.2,fun h => ⟨chooseTopkBitmap_lt hshuffled topk hpos h,h⟩⟩
  · rw [hbits]
    exact bits_sorted _ n

/-- Host selection and switch decoding agree, and no two tokens of any hosts share a key. -/
theorem selection_agrees :
    (∀ (n : ℕ) (topk : ℤ) (shuffled : List ℕ), 0 < n → n ≤ 64 → shuffled.Perm (List.range n) →
      (popcount (chooseTopkBitmap n topk shuffled) : ℤ) = min (max topk 1) n ∧
      Agrees n (chooseTopkBitmap n topk shuffled)) ∧
    (∀ (bitmap : U64) (n : ℕ), 0 < n → n ≤ 64 →
      ofBits 64 (decodeExpertIds bitmap n) = if low bitmap n = 0 then 1 else low bitmap n) ∧
    ∀ (hosts : Type) (args : hosts → WorkloadArgs), Function.Injective (fun h => (args h).srcRank) →
      ∀ (h g : hosts) (i j : ℕ) (t u : TokenDesc) (ts ts' : U64),
        (args h).tokens[i]? = some t → (args g).tokens[j]? = some u → h ≠ g ∨ i ≠ j →
        makeKey (dispatchTokenMsg t i ts).header ≠ makeKey (dispatchTokenMsg u j ts').header := by
  refine ⟨?_,?_,?_⟩
  · intro n topk shuffled hpos hn hshuffled
    refine ⟨?_,chosen_agrees hpos hn topk hshuffled⟩
    rw [popcount_chooseTopkBitmap hshuffled topk hpos hn]
    omega
  · intro bitmap n hpos hn
    exact ofBits_decodeExpertIds bitmap hpos hn
  · intro hosts args hranks h g i j t u ts ts' ht hu hne hkey
    obtain ⟨hrank,hindex⟩ := WorkloadArgs.key_inj ht hu hkey
    rcases hne with hhost | hother
    · exact hhost (hranks hrank)
    · exact hother hindex

def sampleArgs (second : Bool) : WorkloadArgs where
  runId := 1
  numTokens := 2
  srcRank := cond second 1 0
  numHosts := 2
  topk := 1
  shuffle _ := [1,0]
  numTokens_lt := by decide
  srcRank_lt := by cases second <;> decide

theorem selection_agrees_sample :
    ((popcount (chooseTopkBitmap 3 2 [2,0,1]) : ℤ) = 2 ∧ Agrees 3 (chooseTopkBitmap 3 2 [2,0,1])) ∧
    ofBits 64 (decodeExpertIds 0xF0 4) = 1 ∧
    makeKey (dispatchTokenMsg (makeToken 1 0 0 0 2 1 [1,0]) 0 7).header ≠
      makeKey (dispatchTokenMsg (makeToken 1 0 0 1 2 1 [1,0]) 0 9).header :=
  ⟨selection_agrees.1 3 2 [2,0,1] (by decide) (by decide) (by decide),
    selection_agrees.2.1 0xF0 4 (by decide) (by decide),
    selection_agrees.2.2 Bool sampleArgs (by decide) false true 0 0 _ _ 7 9 rfl rfl (by decide)⟩

end INA2A
