import INA2A.Protocol

/-! The workload (`workload.cc`): which experts a token selects, and the tokens of a host. -/
namespace INA2A

open ByteBuffers BitWords

/-- `choose_topk_bitmap`; `shuffled` is what `std::shuffle` made of `0 .. num_hosts - 1`. -/
def chooseTopkBitmap (numHosts topk : ℤ) (shuffled : List ℕ) : U64 :=
  if numHosts ≤ 0 then 0
  else
    let topk := if topk ≤ 0 then 1 else topk
    let topk := if numHosts < topk then numHosts else topk
    ofBits 64 (shuffled.take topk.toNat)

def makeToken (runId mb tokenId : U64) (srcRank : ℕ) (numHosts topk : ℤ) (shuffled : List ℕ) :
    TokenDesc where
  runId := runId
  microbatchId := mb
  tokenId := tokenId
  srcRank := BitVec.ofNat 32 srcRank
  dstRank := 0
  originRank := BitVec.ofNat 32 srcRank
  expertBitmap := chooseTopkBitmap numHosts topk shuffled
  globalIdx := tokenId
  payloadLen := 128 * 1024

/-- `shuffle i` is the shuffle made for token `i`. -/
def makeWorkload (runId : U64) (numTokens srcRank : ℕ) (numHosts topk : ℤ) (shuffle : ℕ → List ℕ) :
    List TokenDesc :=
  (List.range numTokens).map fun i =>
    makeToken runId (BitVec.ofNat 64 i) (BitVec.ofNat 64 i) srcRank numHosts topk (shuffle i)

end INA2A
