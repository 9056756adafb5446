import INA2A.System
import INA2A.Lifecycle

/-! The tokens of a configuration, the messages and slots that belong to each, and what the
handlers make of them. -/
namespace INA2A

open ByteBuffers BitWords

variable {N : ℕ}

def Config.token (c : Config N) (h : Fin N) (i : ℕ) : TokenDesc :=
  makeToken 1 (BitVec.ofNat 64 i) (BitVec.ofNat 64 i) h N (clampTopk N (c.args h).topk)
    ((c.args h).shuffle i)

def Config.num (c : Config N) (h : Fin N) : ℕ := (c.args h).numTokens

theorem workload_get (c : Config N) (h : Fin N) (i : ℕ) :
    (c.workload h)[i]? = if i < c.num h then some (c.token h i) else none := by
  by_cases hi : i < c.num h
  · have hi' : i < (c.args h).numTokens := hi
    simp [Config.workload,makeWorkload,Config.token,hi,hi']
  · have hi' : (c.args h).numTokens ≤ i := Nat.not_lt.mp hi
    simp [Config.workload,makeWorkload,hi,hi']

@[simp] theorem env_numTokens (c : Config N) (h : Fin N) : (c.env h).numTokens = c.num h := by
  simp [HostEnv.numTokens,Config.env,Config.workload,makeWorkload,Config.num]

@[simp] theorem env_workload (c : Config N) (h : Fin N) : (c.env h).workload = c.workload h := rfl

theorem num_lt (c : Config N) (h : Fin N) : c.num h < 2 ^ 31 := (c.args h).numTokens_lt

theorem clampTopk_mem (n : ℕ) (hn : 0 < n) (topk : ℤ) :
    1 ≤ clampTopk n topk ∧ clampTopk n topk ≤ n := by
  unfold clampTopk
  dsimp only
  split_ifs <;> omega

theorem chooseTopkBitmap_eq (n : ℕ) (hn : 0 < n) (topk : ℤ) (shuffled : List ℕ) :
    chooseTopkBitmap n topk shuffled = ofBits 64 (shuffled.take (clampTopk n topk).toNat) := by
  unfold chooseTopkBitmap clampTopk
  rw [if_neg (by omega)]

theorem clampTopk_clampTopk (n : ℕ) (hn : 0 < n) (topk : ℤ) :
    clampTopk n (clampTopk n topk) = clampTopk n topk := by
  obtain ⟨h1,h2⟩ := clampTopk_mem n hn topk
  generalize clampTopk n topk = k at *
  unfold clampTopk
  dsimp only
  rw [if_neg (by omega),if_neg (by omega)]

def Config.experts (c : Config N) (h : Fin N) (i : ℕ) : Finset (Fin N) :=
  Finset.univ.filter fun e => (c.token h i).expertBitmap.getLsbD e = true

theorem token_expertBitmap (c : Config N) (h : Fin N) (i e : ℕ) :
    (c.token h i).expertBitmap.getLsbD e = true ↔
      e ∈ ((c.args h).shuffle i).take (clampTopk N (c.args h).topk).toNat := by
  have hN : 0 < N := h.pos
  have hbound : ∀ e ∈ ((c.args h).shuffle i).take (clampTopk N (c.args h).topk).toNat, e < 64 := by
    intro e he
    have hmem := ((c.args h).shuffle_perm i).mem_iff.mp (List.mem_of_mem_take he)
    have := List.mem_range.mp hmem
    have := c.hosts_le
    omega
  simp only [Config.token,makeToken,chooseTopkBitmap_eq N hN,clampTopk_clampTopk N hN,getLsbD_ofBits,
    Bool.and_eq_true,decide_eq_true_eq]
  exact ⟨fun h => h.1,fun h => ⟨h,hbound e h⟩⟩

theorem token_expert_lt (c : Config N) (h : Fin N) (i e : ℕ)
    (he : (c.token h i).expertBitmap.getLsbD e = true) : e < N := by
  rw [token_expertBitmap] at he
  exact List.mem_range.mp (((c.args h).shuffle_perm i).mem_iff.mp (List.mem_of_mem_take he))

theorem experts_nonempty (c : Config N) (h : Fin N) (i : ℕ) : (c.experts h i).Nonempty := by
  have hN : 0 < N := h.pos
  obtain ⟨h1,-⟩ := clampTopk_mem N hN (c.args h).topk
  have hlen : ((c.args h).shuffle i).length = N := by
    rw [((c.args h).shuffle_perm i).length_eq,List.length_range]
  have hpos : 0 < (((c.args h).shuffle i).take (clampTopk N (c.args h).topk).toNat).length := by
    rw [List.length_take,hlen]
    omega
  obtain ⟨e,he⟩ := List.exists_mem_of_length_pos hpos
  have hbit := (token_expertBitmap c h i e).mpr he
  exact ⟨⟨e,token_expert_lt c h i e hbit⟩,by simpa [Config.experts] using hbit⟩

/-- The experts in a set, in rank order. -/
def listOf (W : Finset (Fin N)) : List (Fin N) := (List.finRange N).filter (· ∈ W)

theorem mem_listOf {W : Finset (Fin N)} {e : Fin N} : e ∈ listOf W ↔ e ∈ W := by
  simp [listOf]

theorem nodup_listOf (W : Finset (Fin N)) : (listOf W).Nodup :=
  (List.nodup_finRange N).filter _

/-- The switch decodes the bitmap of a token to the experts it selects, without the fallback. -/
theorem decodeExpertIds_token (c : Config N) (h : Fin N) (i : ℕ) :
    decodeExpertIds (c.token h i).expertBitmap N = (listOf (c.experts h i)).map Fin.val := by
  have hids : scannedIds (c.token h i).expertBitmap N = (listOf (c.experts h i)).map Fin.val := by
    rw [scannedIds_eq _ c.hosts_le,bits,← List.map_coe_finRange_eq_range,List.filter_map,listOf]
    congr 1
    apply List.filter_congr
    intro e _
    simp [Config.experts]
  have hsome : scannedIds (c.token h i).expertBitmap N ≠ [] := by
    rw [hids]
    intro hnil
    obtain ⟨e,he⟩ := experts_nonempty c h i
    have hmem : e ∈ listOf (c.experts h i) := mem_listOf.mpr he
    rw [List.map_eq_nil_iff.mp hnil] at hmem
    cases hmem
  rw [decodeExpertIds_scanned hsome,hids]

def Config.dispatch (c : Config N) (h : Fin N) (i : ℕ) (ts : U64) : Msg :=
  dispatchTokenMsg (c.token h i) i ts

def Config.pull (c : Config N) (h : Fin N) (i : ℕ) (ts : U64) : Msg :=
  combinePullMsg (c.env h) (c.token h i) i ts

def Config.input (c : Config N) (o : Fin N) (i : ℕ) (e : Fin N) (ts : U64) : Msg :=
  expertInputMsg (c.dispatch o i 0) e ts

def Config.result (c : Config N) (o : Fin N) (i : ℕ) (e : Fin N) (ts : U64) : Msg :=
  expertResultMsg (c.env e) (c.input o i e 0) ts

def Config.ack (c : Config N) (h : Fin N) (i : ℕ) (ts : U64) : Msg :=
  ackMsg (c.dispatch h i 0).header ts

def Config.notReady (c : Config N) (h : Fin N) (i : ℕ) (ts : U64) : Msg :=
  notReadyMsg (c.pull h i 0).header ts

def Config.finish (c : Config N) (h : Fin N) (ts : U64) : Msg := hostFinishMsg (c.env h) ts

def Config.key (c : Config N) (h : Fin N) (i : ℕ) : CombineKey := makeKey (c.dispatch h i 0).header

/-- What `k` experts have added to the slot of a token. -/
def Config.partialSum (c : Config N) (h : Fin N) (i k : ℕ) : Bytes :=
  Bytes.tabulate (c.token h i).payloadLen.toNat fun j =>
    BitVec.ofNat 8 (2 * k) * (attentionPayload (c.token h i)).get j

def setBits (W : Finset (Fin N)) : U64 := expectedBitmap (listOf W)

theorem getLsbD_setBits (hN : N ≤ 64) (W : Finset (Fin N)) (e : ℕ) :
    (setBits W).getLsbD e = true ↔ ∃ he : e < N, (⟨e,he⟩ : Fin N) ∈ W := by
  simp only [setBits,expectedBitmap,getLsbD_ofBits,Bool.and_eq_true,decide_eq_true_eq,List.mem_map,
    mem_listOf]
  constructor
  · rintro ⟨⟨g,hg,rfl⟩,-⟩
    exact ⟨g.isLt,hg⟩
  · rintro ⟨he,hmem⟩
    exact ⟨⟨_,hmem,rfl⟩,by omega⟩

/-- The slot of a token while the experts in `W` are still pending. -/
def Config.slot (c : Config N) (h : Fin N) (i : ℕ) (W : Finset (Fin N)) : QueueSlot :=
  { newSlot (c.dispatch h i 0).header (setBits (c.experts h i)) with
    data := c.partialSum h i (c.experts h i \ W).card
    pendingBitmap := setBits W
    ready := decide (W = ∅) }

def Config.combined (c : Config N) (h : Fin N) (i : ℕ) (ts : U64) : Msg :=
  combineResultMsg (c.pull h i 0).header (c.slot h i ∅) ts

theorem payloadLen_toNat (c : Config N) (h : Fin N) (i : ℕ) :
    (c.token h i).payloadLen.toNat = 131072 := rfl

theorem dispatch_payload (c : Config N) (h : Fin N) (i : ℕ) (ts : U64) :
    (c.dispatch h i ts).payload = attentionPayload (c.token h i) :=
  Bytes.take_self (attentionPayload (c.token h i))

theorem dispatch_wellFormed (c : Config N) (h : Fin N) (i : ℕ) (ts : U64) :
    (c.dispatch h i ts).WellFormed where
  magic := rfl
  version := rfl
  payload := by rw [dispatch_payload]; rfl
  small := by
    change 80 + (c.token h i).payloadLen.toNat ≤ srMaxMsgSize
    rw [payloadLen_toNat]
    decide

theorem input_wellFormed (c : Config N) (o : Fin N) (i : ℕ) (e : Fin N) (ts : U64) :
    (c.input o i e ts).WellFormed where
  magic := rfl
  version := rfl
  payload := (dispatch_wellFormed c o i 0).payload
  small := (dispatch_wellFormed c o i 0).small

theorem input_payload (c : Config N) (o : Fin N) (i : ℕ) (e : Fin N) (ts : U64) :
    (c.input o i e ts).payload = attentionPayload (c.token o i) :=
  dispatch_payload c o i 0

theorem result_payloadLen (c : Config N) (o : Fin N) (i : ℕ) (e : Fin N) (ts : U64) :
    (c.result o i e ts).header.payloadLen.toNat = (c.token o i).payloadLen.toNat := by
  change (BitVec.ofNat 32 (c.input o i e 0).payload.size).toNat = _
  rw [input_payload]
  change (BitVec.ofNat 32 (c.token o i).payloadLen.toNat).toNat = _
  rw [BitVec.toNat_ofNat,payloadLen_toNat]

theorem result_payload (c : Config N) (o : Fin N) (i : ℕ) (e : Fin N) (ts : U64) :
    (c.result o i e ts).payload = Bytes.tabulate (c.token o i).payloadLen.toNat fun j =>
      (attentionPayload (c.token o i)).get j * 2 := by
  have hlen := result_payloadLen c o i e ts
  simp only [Config.result,expertResultMsg,outMsg] at hlen ⊢
  rw [hlen,input_payload]
  exact Bytes.take_self (Bytes.tabulate (c.token o i).payloadLen.toNat _)

theorem result_wellFormed (c : Config N) (o : Fin N) (i : ℕ) (e : Fin N) (ts : U64) :
    (c.result o i e ts).WellFormed where
  magic := rfl
  version := rfl
  payload := by rw [result_payload,result_payloadLen]; rfl
  small := by
    rw [result_payloadLen]
    exact (dispatch_wellFormed c o i 0).small

theorem wellFormed_of_empty {m : Msg} (hmagic : m.header.magic = magicNumber)
    (hversion : m.header.version = protocolVersion) (hlen : m.header.payloadLen = 0)
    (hpayload : m.payload.size = 0) : m.WellFormed where
  magic := hmagic
  version := hversion
  payload := by rw [hpayload,hlen]; rfl
  small := by rw [hlen]; decide

theorem pull_wellFormed (c : Config N) (h : Fin N) (i : ℕ) (ts : U64) :
    (c.pull h i ts).WellFormed := wellFormed_of_empty rfl rfl rfl rfl
theorem ack_wellFormed (c : Config N) (h : Fin N) (i : ℕ) (ts : U64) :
    (c.ack h i ts).WellFormed := wellFormed_of_empty rfl rfl rfl rfl
theorem notReady_wellFormed (c : Config N) (h : Fin N) (i : ℕ) (ts : U64) :
    (c.notReady h i ts).WellFormed := wellFormed_of_empty rfl rfl rfl rfl
theorem finish_wellFormed (c : Config N) (h : Fin N) (ts : U64) :
    (c.finish h ts).WellFormed := wellFormed_of_empty rfl rfl rfl rfl
theorem broadcastFinish_wellFormed (rid : U64) (rank : ℕ) (ts : U64) :
    (broadcastFinishMsg rid rank ts).WellFormed := wellFormed_of_empty rfl rfl rfl rfl

theorem combined_wellFormed (c : Config N) (h : Fin N) (i : ℕ) (ts : U64) :
    (c.combined h i ts).WellFormed where
  magic := rfl
  version := rfl
  payload := rfl
  small := (dispatch_wellFormed c h i 0).small

theorem setBits_eq_zero (hN : N ≤ 64) (W : Finset (Fin N)) : setBits W = 0 ↔ W = ∅ := by
  rw [eq_zero_iff]
  constructor
  · intro hz
    apply Finset.eq_empty_of_forall_notMem
    intro e he
    have := (getLsbD_setBits hN W e).mpr ⟨e.isLt,he⟩
    simp [hz] at this
  · rintro rfl e
    rw [← Bool.not_eq_true,getLsbD_setBits hN]
    simp

theorem clear_setBits (hN : N ≤ 64) (W : Finset (Fin N)) (e : Fin N) :
    clear (setBits W) e = setBits (W.erase e) := by
  apply BitVec.eq_of_getLsbD_eq
  intro j _
  rw [Bool.eq_iff_iff,getLsbD_clear,Bool.and_eq_true,getLsbD_setBits hN,getLsbD_setBits hN,
    decide_eq_true_eq]
  constructor
  · rintro ⟨⟨hj,hmem⟩,hne⟩
    refine ⟨hj,Finset.mem_erase.mpr ⟨?_,hmem⟩⟩
    intro heq
    exact hne (congrArg Fin.val heq)
  · rintro ⟨hj,hmem⟩
    obtain ⟨hne,hmem⟩ := Finset.mem_erase.mp hmem
    refine ⟨⟨hj,hmem⟩,?_⟩
    rintro rfl
    exact hne rfl

theorem QueueSlot.eq_of_parts {a b : QueueSlot} (hdata : a.data = b.data)
    (hpending : a.pendingBitmap = b.pendingBitmap) (hready : a.ready = b.ready)
    (hrest : { a with data := b.data, pendingBitmap := b.pendingBitmap, ready := b.ready } = b) :
    a = b := by
  rw [← hrest,← hdata,← hpending,← hready]

theorem slot_full (c : Config N) (h : Fin N) (i : ℕ) :
    newSlot (c.dispatch h i 0).header (setBits (c.experts h i)) = c.slot h i (c.experts h i) := by
  apply QueueSlot.eq_of_parts
  · apply Bytes.ext
    · rfl
    · intro j hj
      simp [newSlot,Config.slot,Config.partialSum,Bytes.tabulate]
  · rfl
  · have hz := setBits_eq_zero c.hosts_le (c.experts h i)
    simp only [newSlot,Config.slot,hz]
  · rfl

theorem slot_aggregate (c : Config N) (h : Fin N) (i : ℕ) {W : Finset (Fin N)} {e : Fin N}
    (he : e ∈ W) (hW : W ⊆ c.experts h i) (ts : U64) :
    (c.slot h i W).aggregate e (c.result h i e ts).payload = c.slot h i (W.erase e) := by
  have hcard : (c.experts h i \ W.erase e).card = (c.experts h i \ W).card + 1 := by
    have hsplit : c.experts h i \ W.erase e = insert e (c.experts h i \ W) := by
      ext x
      simp only [Finset.mem_sdiff,Finset.mem_erase,Finset.mem_insert,not_and]
      constructor
      · rintro ⟨hx,hxe⟩
        by_cases hxW : x ∈ W
        · left
          by_contra hne
          exact absurd hxW (hxe hne)
        · exact Or.inr ⟨hx,hxW⟩
      · rintro (rfl | ⟨hx,hxW⟩)
        · exact ⟨hW he,fun hne => absurd rfl hne⟩
        · exact ⟨hx,fun _ => hxW⟩
    rw [hsplit,Finset.card_insert_of_notMem (by simp [he])]
  apply QueueSlot.eq_of_parts
  · apply Bytes.ext
    · rfl
    · intro j hj
      have hj' : j < (c.token h i).payloadLen.toNat := hj
      have hsize : (c.result h i e ts).payload.size = (c.partialSum h i (c.experts h i \ W).card).size := by
        rw [result_payload]; rfl
      change (Bytes.addInto (c.partialSum h i (c.experts h i \ W).card)
        (c.result h i e ts).payload).get j = (c.partialSum h i (c.experts h i \ W.erase e).card).get j
      rw [Bytes.addInto_get _ _ hsize,result_payload,hcard,Config.partialSum,Config.partialSum,
        Bytes.tabulate_get _ hj',Bytes.tabulate_get _ hj',Bytes.tabulate_get _ hj']
      have hmul : BitVec.ofNat 8 (2 * ((c.experts h i \ W).card + 1)) =
          BitVec.ofNat 8 (2 * (c.experts h i \ W).card) + 2 := by
        rw [Nat.mul_add,BitVec.ofNat_add]
        rfl
      rw [hmul,BitVec.add_mul,BitVec.mul_comm _ 2]
  · exact clear_setBits c.hosts_le W e
  · change (if clear (setBits W) e = 0 then true else decide (W = ∅)) = decide (W.erase e = ∅)
    rw [clear_setBits c.hosts_le]
    have hne : W ≠ ∅ := Finset.ne_empty_of_mem he
    by_cases hz : W.erase e = ∅
    · rw [if_pos ((setBits_eq_zero c.hosts_le _).mpr hz)]
      simp [hz]
    · rw [if_neg fun h0 => hz ((setBits_eq_zero c.hosts_le _).mp h0)]
      simp [hz,hne]
  · rfl

theorem expertInput_key (src : Msg) (rank : ℕ) (ts : U64) :
    makeKey (expertInputMsg src rank ts).header = makeKey src.header := rfl

theorem expertResult_key (env : HostEnv) (input : Msg) (ts : U64) :
    makeKey (expertResultMsg env input ts).header = makeKey input.header := rfl

theorem result_key (c : Config N) (h : Fin N) (i : ℕ) (e : Fin N) (ts : U64) :
    makeKey (c.result h i e ts).header = c.key h i :=
  (expertResult_key (c.env e) (c.input h i e 0) ts).trans (expertInput_key (c.dispatch h i 0) e 0)

theorem pull_key (c : Config N) (h : Fin N) (i : ℕ) (ts : U64) :
    makeKey (c.pull h i ts).header = c.key h i := makeKey_congr rfl rfl rfl rfl rfl

theorem dispatch_key (c : Config N) (h : Fin N) (i : ℕ) (ts : U64) :
    makeKey (c.dispatch h i ts).header = c.key h i := makeKey_congr rfl rfl rfl rfl rfl

theorem result_srcRank (c : Config N) (h : Fin N) (i : ℕ) (e : Fin N) (ts : U64) :
    (c.result h i e ts).header.srcRank.toNat = e := by
  have := c.hosts_le
  change (BitVec.ofNat 32 e.val).toNat = _
  rw [BitVec.toNat_ofNat]
  exact Nat.mod_eq_of_lt (by omega)

/-- The result of an expert that is still pending is accepted. -/
theorem handleExpertResult_pending (c : Config N) (h : Fin N) (i : ℕ) {W : Finset (Fin N)}
    {e : Fin N} (he : e ∈ W) (hW : W ⊆ c.experts h i) (ts : U64) {queue : CombineQueue}
    (hslot : queue (c.key h i) = some (c.slot h i W)) :
    handleExpertResult queue (c.result h i e ts) =
      .ok (Function.update queue (c.key h i) (some (c.slot h i (W.erase e)))) := by
  have hN := c.hosts_le
  have hsize : (c.result h i e ts).payload.size = (c.slot h i W).payloadLen.toNat := by
    rw [result_payload]; rfl
  have hbit : ¬(c.slot h i W).pendingBitmap &&& bit 64 e = 0 := by
    change ¬setBits W &&& bit 64 e = 0
    rw [and_bit_eq_zero _ (by omega),(getLsbD_setBits hN W e).mpr ⟨e.isLt,he⟩]
    simp
  unfold handleExpertResult
  simp only [result_key,hslot,result_srcRank]
  rw [if_neg (not_not.mpr hsize),if_neg (by omega),if_neg hbit,slot_aggregate c h i he hW]

end INA2A
