import INA2A.Lib.ByteOrder
import INA2A.Transport

/-! Messages on the wire (`transport_softroce.cc`): the header as a structure in the memory of
a machine of either byte order, its members in network byte order, and the payload after it. -/
namespace INA2A

open ByteBuffers BitWords

def htons (e : ByteOrder) (x : U16) : U16 := ByteOrder.big.convert e 2 x
def htonl (e : ByteOrder) (x : U32) : U32 := ByteOrder.big.convert e 4 x
def ntohs (e : ByteOrder) (x : U16) : U16 := e.convert .big 2 x
def ntohl (e : ByteOrder) (x : U32) : U32 := e.convert .big 4 x

/-- The byte at the address of a `uint16_t` of value 1. -/
def firstByteOfOne (e : ByteOrder) : Byte := (e.store 2 (1 : U16)).headD 0

def hostToNetworkU64 (e : ByteOrder) (v : U64) : U64 :=
  if firstByteOfOne e = 1 then
    let lo : U64 := (htonl e ((v &&& 0xFFFFFFFF).setWidth 32)).setWidth 64
    let hi : U64 := (htonl e ((v >>> 32).setWidth 32)).setWidth 64
    (lo <<< 32) ||| hi
  else v

def networkToHostU64 (e : ByteOrder) (v : U64) : U64 :=
  if firstByteOfOne e = 1 then
    let lo : U64 := (ntohl e ((v &&& 0xFFFFFFFF).setWidth 32)).setWidth 64
    let hi : U64 := (ntohl e ((v >>> 32).setWidth 32)).setWidth 64
    (lo <<< 32) ||| hi
  else v

def headerToWire (e : ByteOrder) (h : MsgHeader) : MsgHeader where
  magic := htonl e h.magic
  version := htons e h.version
  type := htons e h.type
  headerLen := htonl e h.headerLen
  payloadLen := htonl e h.payloadLen
  runId := hostToNetworkU64 e h.runId
  microbatchId := hostToNetworkU64 e h.microbatchId
  tokenId := hostToNetworkU64 e h.tokenId
  srcRank := htonl e h.srcRank
  dstRank := htonl e h.dstRank
  originRank := htonl e h.originRank
  expertBitmap := hostToNetworkU64 e h.expertBitmap
  globalIdx := hostToNetworkU64 e h.globalIdx
  timestampNs := hostToNetworkU64 e h.timestampNs

def headerFromWire (e : ByteOrder) (h : MsgHeader) : MsgHeader where
  magic := ntohl e h.magic
  version := ntohs e h.version
  type := ntohs e h.type
  headerLen := ntohl e h.headerLen
  payloadLen := ntohl e h.payloadLen
  runId := networkToHostU64 e h.runId
  microbatchId := networkToHostU64 e h.microbatchId
  tokenId := networkToHostU64 e h.tokenId
  srcRank := ntohl e h.srcRank
  dstRank := ntohl e h.dstRank
  originRank := ntohl e h.originRank
  expertBitmap := networkToHostU64 e h.expertBitmap
  globalIdx := networkToHostU64 e h.globalIdx
  timestampNs := networkToHostU64 e h.timestampNs

theorem swap_toNat {w n : ℕ} (hw : 8 * n = w) (x : BitVec w) :
    (ByteOrder.big.convert .little n x).toNat = value (digits n x.toNat).reverse ∧
      (ByteOrder.little.convert .big n x).toNat = value (digits n x.toNat).reverse := by
  have hlt : value (digits n x.toNat).reverse < 2 ^ w := by
    have := value_lt (digits n x.toNat).reverse
    rwa [List.length_reverse,digits_length,show (256 : ℕ) = 2 ^ 8 from rfl,← Nat.pow_mul,hw] at this
  constructor <;>
    simp only [ByteOrder.convert,ByteOrder.load,ByteOrder.store,ByteOrder.arrange,
      BitVec.toNat_ofNat,Nat.mod_eq_of_lt hlt]

theorem swap_halves (v : U64) {lo hi : U32}
    (hlo : lo.toNat = value (digits 4 ((v &&& 0xFFFFFFFF).setWidth 32).toNat).reverse)
    (hhi : hi.toNat = value (digits 4 ((v >>> 32).setWidth 32).toNat).reverse) :
    ((lo.setWidth 64 <<< 32) ||| hi.setWidth 64).toNat = value (digits 8 v.toNat).reverse := by
  have hand : ((v &&& 0xFFFFFFFF).setWidth 32).toNat = v.toNat % 256 ^ 4 := by
    rw [BitVec.toNat_setWidth,BitVec.toNat_and]
    change (v.toNat &&& (2 ^ 32 - 1)) % 2 ^ 32 = v.toNat % 256 ^ 4
    rw [Nat.and_two_pow_sub_one_eq_mod,Nat.mod_mod]
    norm_num
  have hshift : ((v >>> 32).setWidth 32).toNat = v.toNat / 256 ^ 4 := by
    have := v.isLt
    rw [BitVec.toNat_setWidth,BitVec.toNat_ushiftRight,Nat.shiftRight_eq_div_pow]
    omega
  rw [hand,digits_mod (n:=4) (k:=4) le_rfl] at hlo
  rw [hshift] at hhi
  have hsplit : digits 8 v.toNat = digits 4 v.toNat ++ digits 4 (v.toNat / 256 ^ 4) :=
    digits_add 4 4 v.toNat
  rw [hsplit,List.reverse_append,value_append,List.length_reverse,digits_length,← hlo,← hhi]
  have hlo_lt := lo.isLt
  have hhi_lt := hi.isLt
  rw [BitVec.toNat_or,BitVec.toNat_shiftLeft,BitVec.toNat_setWidth_of_le (by decide),
    BitVec.toNat_setWidth_of_le (by decide),Nat.shiftLeft_eq,Nat.mod_eq_of_lt (by omega),
    ← Nat.shiftLeft_eq,← Nat.shiftLeft_add_eq_or_of_lt hhi_lt,Nat.shiftLeft_eq]
  omega

theorem firstByteOfOne_little : firstByteOfOne .little = 1 := by decide
theorem firstByteOfOne_big : firstByteOfOne .big ≠ 1 := by decide

theorem hostToNetworkU64_eq (e : ByteOrder) (v : U64) :
    hostToNetworkU64 e v = ByteOrder.big.convert e 8 v := by
  unfold hostToNetworkU64
  cases e with
  | little =>
    rw [if_pos firstByteOfOne_little]
    apply BitVec.eq_of_toNat_eq
    rw [(swap_toNat (by decide) v).1]
    exact swap_halves v (swap_toNat (by decide) _).1 (swap_toNat (by decide) _).1
  | big =>
    rw [if_neg firstByteOfOne_big,ByteOrder.convert,ByteOrder.load_store _ (by decide)]

theorem networkToHostU64_eq (e : ByteOrder) (v : U64) :
    networkToHostU64 e v = e.convert .big 8 v := by
  unfold networkToHostU64
  cases e with
  | little =>
    rw [if_pos firstByteOfOne_little]
    apply BitVec.eq_of_toNat_eq
    rw [(swap_toNat (by decide) v).2]
    exact swap_halves v (swap_toNat (by decide) _).2 (swap_toNat (by decide) _).2
  | big =>
    rw [if_neg firstByteOfOne_big,ByteOrder.convert,ByteOrder.load_store _ (by decide)]

/-- The members of `MsgHeader` in order, with the padding that aligns `expert_bitmap`. -/
def MsgHeader.sizes : List ℕ := [4,2,2,4,4,8,8,8,4,4,4,4,8,8,8]

/-- The members of a header in memory; what is in the padding is up to the compiler. -/
def MsgHeader.members (e : ByteOrder) (padding : List Byte) (h : MsgHeader) : List (List Byte) :=
  [e.store 4 h.magic,e.store 2 h.version,e.store 2 h.type,e.store 4 h.headerLen,
    e.store 4 h.payloadLen,e.store 8 h.runId,e.store 8 h.microbatchId,e.store 8 h.tokenId,
    e.store 4 h.srcRank,e.store 4 h.dstRank,e.store 4 h.originRank,padding,
    e.store 8 h.expertBitmap,e.store 8 h.globalIdx,e.store 8 h.timestampNs]

/-- `memcpy` of a header. -/
def MsgHeader.store (e : ByteOrder) (padding : List Byte) (h : MsgHeader) : List Byte :=
  (h.members e padding).flatten

def MsgHeader.ofMembers (e : ByteOrder) (ms : List (List Byte)) : MsgHeader where
  magic := e.load 32 (ms.getD 0 [])
  version := e.load 16 (ms.getD 1 [])
  type := e.load 16 (ms.getD 2 [])
  headerLen := e.load 32 (ms.getD 3 [])
  payloadLen := e.load 32 (ms.getD 4 [])
  runId := e.load 64 (ms.getD 5 [])
  microbatchId := e.load 64 (ms.getD 6 [])
  tokenId := e.load 64 (ms.getD 7 [])
  srcRank := e.load 32 (ms.getD 8 [])
  dstRank := e.load 32 (ms.getD 9 [])
  originRank := e.load 32 (ms.getD 10 [])
  expertBitmap := e.load 64 (ms.getD 12 [])
  globalIdx := e.load 64 (ms.getD 13 [])
  timestampNs := e.load 64 (ms.getD 14 [])

def MsgHeader.load (e : ByteOrder) (bs : List Byte) : MsgHeader := ofMembers e (split sizes bs)

example : MsgHeader.sizes.sum = sizeofMsgHeader := by decide

variable {e f : ByteOrder} {padding : List Byte} {h : MsgHeader}

theorem MsgHeader.members_lengths (hpad : padding.length = 4) :
    (h.members e padding).map List.length = sizes := by
  simp [members,sizes,hpad]

theorem MsgHeader.store_length (hpad : padding.length = 4) :
    (h.store e padding).length = sizeofMsgHeader := by
  rw [store,List.length_flatten,members_lengths hpad]
  rfl

/-- On the wire every member is in network byte order, whatever machine sends it. -/
theorem headerToWire_members (e : ByteOrder) (padding : List Byte) (h : MsgHeader) :
    (headerToWire e h).members e padding = h.members .big padding := by
  simp only [MsgHeader.members,headerToWire,hostToNetworkU64_eq,htonl,htons]
  simp only [ByteOrder.store_convert _ _ (show 8 * 4 = 32 from rfl),
    ByteOrder.store_convert _ _ (show 8 * 2 = 16 from rfl),
    ByteOrder.store_convert _ _ (show 8 * 8 = 64 from rfl)]

theorem MsgHeader.ofMembers_members (e : ByteOrder) (padding : List Byte) (h : MsgHeader) :
    ofMembers e (h.members e padding) = h := by
  simp [ofMembers,members,ByteOrder.load_store]

theorem MsgHeader.load_store (hpad : padding.length = 4) : load e (h.store e padding) = h := by
  rw [load,store,split_flatten (members_lengths hpad),ofMembers_members]

theorem headerFromWire_ofMembers (e : ByteOrder) {ms : List (List Byte)}
    (hlen : ms.map List.length = MsgHeader.sizes) :
    headerFromWire e (.ofMembers e ms) = .ofMembers .big ms := by
  have hget : ∀ k, (ms.getD k []).length = MsgHeader.sizes.getD k 0 := by
    intro k
    rw [← hlen]
    simp only [List.getD,List.getElem?_map]
    cases ms[k]? <;> rfl
  have hconvert : ∀ {w : ℕ} (k : ℕ), 8 * MsgHeader.sizes.getD k 0 = w →
      e.convert .big (MsgHeader.sizes.getD k 0) (e.load w (ms.getD k [])) =
        ByteOrder.big.load w (ms.getD k []) := by
    intro w k hw
    rw [← hget k] at hw ⊢
    exact ByteOrder.convert_load _ _ hw
  simp only [headerFromWire,MsgHeader.ofMembers,ntohl,ntohs,networkToHostU64_eq]
  congr 1
  · exact hconvert 0 rfl
  · exact hconvert 1 rfl
  · exact hconvert 2 rfl
  · exact hconvert 3 rfl
  · exact hconvert 4 rfl
  · exact hconvert 5 rfl
  · exact hconvert 6 rfl
  · exact hconvert 7 rfl
  · exact hconvert 8 rfl
  · exact hconvert 9 rfl
  · exact hconvert 10 rfl
  · exact hconvert 12 rfl
  · exact hconvert 13 rfl
  · exact hconvert 14 rfl

theorem store_ofMembers (padding : List Byte) {ms : List (List Byte)}
    (hlen : ms.map List.length = MsgHeader.sizes) :
    ∃ before old after : List Byte, ms.flatten = before ++ (old ++ after) ∧
      before.length = 52 ∧ old.length = 4 ∧
      (MsgHeader.ofMembers .big ms).store .big padding = before ++ (padding ++ after) := by
  simp only [MsgHeader.sizes,List.map_eq_cons_iff,List.map_eq_nil_iff] at hlen
  obtain ⟨m0,_,rfl,h0,m1,_,rfl,h1,m2,_,rfl,h2,m3,_,rfl,h3,m4,_,rfl,h4,m5,_,rfl,h5,m6,_,rfl,h6,
    m7,_,rfl,h7,m8,_,rfl,h8,m9,_,rfl,h9,m10,_,rfl,h10,m11,_,rfl,h11,m12,_,rfl,h12,m13,_,rfl,h13,
    m14,_,rfl,h14,rfl⟩ := hlen
  have hstore : ∀ {w n : ℕ} {m : List Byte}, m.length = n → 8 * n = w →
      ByteOrder.big.store n (ByteOrder.big.load w m) = m := by
    rintro w n m rfl hw
    exact ByteOrder.store_load _ hw
  refine ⟨[m0,m1,m2,m3,m4,m5,m6,m7,m8,m9,m10].flatten,m11,[m12,m13,m14].flatten,?_,?_,h11,?_⟩
  · simp
  · simp [h0,h1,h2,h3,h4,h5,h6,h7,h8,h9,h10]
  · simp only [MsgHeader.store,MsgHeader.members,MsgHeader.ofMembers,List.getD_cons_zero,
      List.getD_cons_succ,hstore h0 rfl,hstore h1 rfl,hstore h2 rfl,hstore h3 rfl,hstore h4 rfl,
      hstore h5 rfl,hstore h6 rfl,hstore h7 rfl,hstore h8 rfl,hstore h9 rfl,hstore h10 rfl,
      hstore h12 rfl,hstore h13 rfl,hstore h14 rfl]
    simp

/-- `sr_write` up to the send: the bytes it puts into the send buffer. -/
def srWriteFrame (e : ByteOrder) (padding : List Byte) (m : Msg) : Except Fault (List Byte) :=
  if 0 < m.header.payloadLen.toNat ∧ m.payload.size = 0 then .error .missingPayload
  else
    let totalLen := sizeofMsgHeader + m.header.payloadLen.toNat
    if srMaxMsgSize < totalLen then .error .messageTooLarge
    -- no buffer is that long
    else if 2 ^ 32 - 1 < totalLen then .error .messageTooLarge
    else .ok ((headerToWire e m.header).store e padding ++
      (m.payload.take m.header.payloadLen.toNat).toList)

/-- `sr_read` after the completion of a receive of `byteLen` bytes. -/
def srReadFrame (e : ByteOrder) (byteLen : ℕ) (recvBuf : List Byte) : Except Fault Msg :=
  if byteLen < sizeofMsgHeader then .error .messageTooSmall
  else
    let header := headerFromWire e (.load e (recvBuf.take sizeofMsgHeader))
    if header.magic ≠ magicNumber ∨ header.version ≠ protocolVersion then .error .invalidHeader
    else if byteLen < sizeofMsgHeader + header.payloadLen.toNat then .error .truncatedMessage
    else .ok ⟨header,.ofList ((recvBuf.drop sizeofMsgHeader).take header.payloadLen.toNat)⟩

/-- The bytes of a message on the wire. -/
def Msg.frame (padding : List Byte) (m : Msg) : List Byte :=
  m.header.store .big padding ++ m.payload.toList

theorem Msg.frame_length (hpad : padding.length = 4) (m : Msg) :
    (m.frame padding).length = sizeofMsgHeader + m.payload.size := by
  simp [frame,MsgHeader.store_length hpad]

theorem srWriteFrame_eq (e : ByteOrder) (padding : List Byte) (m : Msg) :
    srWriteFrame e padding m = (srWrite m).map (Msg.frame padding) := by
  have hmax : srMaxMsgSize < 2 ^ 32 - 1 := by decide
  unfold srWriteFrame srWrite
  dsimp only
  split_ifs with hmissing hlarge hhuge
  · rfl
  · rfl
  · omega
  · simp only [MsgHeader.store,headerToWire_members]
    rfl

theorem headerFromWire_frame (hpad : padding.length = 4) (m : Msg) (rest : List Byte) :
    headerFromWire f (.load f ((m.frame padding ++ rest).take sizeofMsgHeader)) = m.header := by
  have htake : (m.frame padding ++ rest).take sizeofMsgHeader = m.header.store .big padding := by
    rw [Msg.frame,List.append_assoc]
    exact List.take_left' (MsgHeader.store_length hpad)
  have hlen : (m.header.members .big padding).map List.length = MsgHeader.sizes :=
    MsgHeader.members_lengths hpad
  rw [htake,MsgHeader.load,MsgHeader.store,split_flatten hlen,headerFromWire_ofMembers f hlen,
    MsgHeader.ofMembers_members]

/-- What `sr_read` makes of a whole frame is what the model of whole messages makes of it. -/
theorem srReadFrame_eq (hpad : padding.length = 4) {m : Msg}
    (hsize : m.payload.size = m.header.payloadLen.toNat) (rest : List Byte) :
    srReadFrame f (m.frame padding).length (m.frame padding ++ rest) = receive m := by
  have hdrop : ((m.frame padding ++ rest).drop sizeofMsgHeader).take m.payload.size =
      m.payload.toList := by
    rw [Msg.frame,List.append_assoc,List.drop_left' (MsgHeader.store_length hpad)]
    exact List.take_left' (Bytes.toList_length m.payload)
  unfold srReadFrame receive srRead
  dsimp only
  rw [headerFromWire_frame hpad,Msg.frame_length hpad,← hsize,hdrop,Bytes.ofList_toList,
    Bytes.take_self]

theorem srReadFrame_wellFormed {recvBuf : List Byte} {byteLen : ℕ} {m : Msg}
    (hbuf : recvBuf.length = srMaxMsgSize) (hle : byteLen ≤ recvBuf.length)
    (hread : srReadFrame f byteLen recvBuf = .ok m) :
    m.WellFormed ∧ sizeofMsgHeader + m.header.payloadLen.toNat ≤ byteLen := by
  unfold srReadFrame at hread
  dsimp only at hread
  split_ifs at hread with hsmall hheader htrunc
  obtain rfl := Except.ok.inj hread
  rw [not_or,not_not,not_not] at hheader
  dsimp only
  refine ⟨⟨hheader.1,hheader.2,?_,?_⟩,by omega⟩
  · rw [Bytes.ofList_size,List.length_take,List.length_drop]
    dsimp only
    omega
  · dsimp only
    omega

theorem getElem?_replace {before old new : List Byte} (after : List Byte)
    (hlen : new.length = old.length) {k : ℕ}
    (hk : k < before.length ∨ before.length + old.length ≤ k) :
    (before ++ (new ++ after))[k]? = (before ++ (old ++ after))[k]? := by
  rcases hk with hk | hk
  · rw [List.getElem?_append_left hk,List.getElem?_append_left hk]
  · rw [List.getElem?_append_right (by omega),List.getElem?_append_right (by omega),
      List.getElem?_append_right (by omega),List.getElem?_append_right (by omega),hlen]

theorem frame_of_read (hpad : padding.length = 4) {recvBuf : List Byte} {byteLen : ℕ} {m : Msg}
    (hbuf : recvBuf.length = srMaxMsgSize) (hle : byteLen ≤ recvBuf.length)
    (hread : srReadFrame f byteLen recvBuf = .ok m) {k : ℕ}
    (hk : k < sizeofMsgHeader + m.header.payloadLen.toNat) (hout : k < 52 ∨ 56 ≤ k) :
    (m.frame padding)[k]? = recvBuf[k]? := by
  obtain ⟨hm,hfits⟩ := srReadFrame_wellFormed hbuf hle hread
  unfold srReadFrame at hread
  dsimp only at hread
  split_ifs at hread
  have hsplit : (recvBuf.take sizeofMsgHeader).length = MsgHeader.sizes.sum := by
    rw [List.length_take]
    exact Nat.min_eq_left (by omega)
  have hlens := split_lengths hsplit
  have hheader : m.header = .ofMembers .big (split MsgHeader.sizes (recvBuf.take sizeofMsgHeader)) := by
    rw [← Except.ok.inj hread]
    exact headerFromWire_ofMembers f hlens
  have hpayload : m.payload.toList =
      (recvBuf.drop sizeofMsgHeader).take m.header.payloadLen.toNat := by
    rw [← Except.ok.inj hread]
    exact Bytes.toList_ofList _
  obtain ⟨before,old,after,hflat,hbefore,hold,hstore⟩ := store_ofMembers padding hlens
  rw [flatten_split hsplit] at hflat
  have hrecv : recvBuf = before ++ (old ++ (after ++ recvBuf.drop sizeofMsgHeader)) := by
    conv_lhs => rw [← List.take_append_drop sizeofMsgHeader recvBuf,hflat]
    simp
  have hblock : (before ++ (old ++ after)).length = sizeofMsgHeader := by
    have hlen := congrArg List.length hflat
    rw [hsplit] at hlen
    exact hlen.symm
  calc (m.frame padding)[k]?
      = (before ++ (padding ++ (after ++
          (recvBuf.drop sizeofMsgHeader).take m.header.payloadLen.toNat)))[k]? := by
        rw [Msg.frame,hheader,hstore,← hheader,hpayload]
        simp
    _ = (before ++ (old ++ (after ++
          (recvBuf.drop sizeofMsgHeader).take m.header.payloadLen.toNat)))[k]? :=
        getElem?_replace _ (by omega) (by omega)
    _ = ((before ++ (old ++ (after ++ recvBuf.drop sizeofMsgHeader))).take
          (sizeofMsgHeader + m.header.payloadLen.toNat))[k]? := by
        congr 1
        have hassoc : before ++ (old ++ (after ++ recvBuf.drop sizeofMsgHeader)) =
            before ++ (old ++ after) ++ recvBuf.drop sizeofMsgHeader := by simp
        rw [hassoc,← hblock,List.take_length_add_append,hblock]
        simp
    _ = recvBuf[k]? := by rw [← hrecv,List.getElem?_take_of_lt hk]

/-- What may be relied on between a sender of byte order `e`, whose compiler leaves `padding`
in its headers, and a receiver of byte order `f`. -/
structure WireFormat (e f : ByteOrder) (padding : List Byte) : Prop where
  /-- A well-formed message arrives as it was sent; on the wire its members are in network
  byte order. -/
  roundTrip : ∀ (m : Msg) (rest : List Byte), m.WellFormed →
    ∃ frame : List Byte, srWriteFrame e padding m = .ok frame ∧
      frame = (m.header.members .big padding).flatten ++ m.payload.toList ∧
      frame.length = sizeofMsgHeader + m.header.payloadLen.toNat ∧
      srReadFrame f frame.length (frame ++ rest) = .ok m
  /-- An accepted message, sent again, gives back the bytes that were received. -/
  reencode : ∀ (recvBuf : List Byte) (byteLen : ℕ) (m : Msg), recvBuf.length = srMaxMsgSize →
    byteLen ≤ recvBuf.length → srReadFrame f byteLen recvBuf = .ok m →
    ∃ frame : List Byte, srWriteFrame e padding m = .ok frame ∧
      frame.length = sizeofMsgHeader + m.header.payloadLen.toNat ∧ frame.length ≤ byteLen ∧
      ∀ k < frame.length, k < 52 ∨ 56 ≤ k → frame[k]? = recvBuf[k]?

theorem wire_format (e f : ByteOrder) (padding : List Byte) (hpad : padding.length = 4) :
    WireFormat e f padding := by
  have hwrite : ∀ m : Msg, m.WellFormed → srWriteFrame e padding m = .ok (m.frame padding) := by
    intro m hm
    rw [srWriteFrame_eq,hm.srWrite]
    rfl
  refine ⟨?_,?_⟩
  · intro m rest hm
    refine ⟨m.frame padding,hwrite m hm,rfl,?_,?_⟩
    · rw [Msg.frame_length hpad,hm.payload]
    · rw [srReadFrame_eq hpad hm.payload,hm.receive]
  · intro recvBuf byteLen m hbuf hle hread
    obtain ⟨hm,hfits⟩ := srReadFrame_wellFormed hbuf hle hread
    have hlen : (m.frame padding).length = sizeofMsgHeader + m.header.payloadLen.toNat := by
      rw [Msg.frame_length hpad,hm.payload]
    refine ⟨m.frame padding,hwrite m hm,hlen,by omega,?_⟩
    intro k hk hout
    exact frame_of_read hpad hbuf hle hread (by omega) hout

theorem wire_format_sample : ∃ m : Msg, m.WellFormed ∧ m.payload.size = 1 ∧
    (m.frame [0,0,0,0]).take 4 = [0x49,0x4E,0x43,0x32] ∧
    WireFormat .little .big [0,0,0,0] := by
  refine ⟨⟨.new .dispatchToken 1,.tabulate 1 fun _ => 7⟩,⟨rfl,rfl,rfl,by decide⟩,rfl,?_,
    wire_format _ _ _ rfl⟩
  decide +kernel

end INA2A
