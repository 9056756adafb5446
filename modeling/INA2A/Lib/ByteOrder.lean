import INA2A.Lib.Bytes

/-! Words in memory: the bytes of a number, the two byte orders, and structures laid out as
members of given sizes. -/
namespace ByteBuffers

/-- The `n` lowest bytes of a number, the lowest first. -/
def digits : ℕ → ℕ → List Byte
  | 0, _ => []
  | n + 1, x => BitVec.ofNat 8 x::digits n (x / 256)

def value (bs : List Byte) : ℕ := Nat.ofDigits 256 (bs.map BitVec.toNat)

@[simp] theorem digits_length (n x : ℕ) : (digits n x).length = n := by
  induction n generalizing x with
  | zero => rfl
  | succ n ih => simp [digits,ih]

@[simp] theorem value_nil : value [] = 0 := rfl

@[simp] theorem value_cons (b : Byte) (bs : List Byte) :
    value (b::bs) = b.toNat + 256 * value bs := by
  simp [value,Nat.ofDigits_cons]

theorem value_append (as bs : List Byte) :
    value (as ++ bs) = value as + 256 ^ as.length * value bs := by
  simp [value,Nat.ofDigits_append]

theorem value_lt (bs : List Byte) : value bs < 256 ^ bs.length := by
  have hlt := Nat.ofDigits_lt_base_pow_length (b:=256) (l:=bs.map BitVec.toNat) (by decide) (by
    intro x hx
    obtain ⟨b,-,rfl⟩ := List.mem_map.mp hx
    exact b.isLt)
  rwa [List.length_map] at hlt

theorem value_digits (n x : ℕ) : value (digits n x) = x % 256 ^ n := by
  induction n generalizing x with
  | zero => simp [digits,Nat.mod_one]
  | succ n ih =>
    rw [digits,value_cons,ih,BitVec.toNat_ofNat,Nat.pow_succ' (m:=256),Nat.mod_mul]

theorem digits_value (bs : List Byte) : digits bs.length (value bs) = bs := by
  induction bs with
  | nil => rfl
  | cons b bs ih =>
    have hb : b.toNat < 256 := b.isLt
    have hdiv : (b.toNat + 256 * value bs) / 256 = value bs := by omega
    rw [List.length_cons,digits,value_cons,hdiv,ih]
    congr 1
    apply BitVec.eq_of_toNat_eq
    rw [BitVec.toNat_ofNat]
    omega

theorem digits_mod {n k : ℕ} (hk : n ≤ k) (x : ℕ) : digits n (x % 256 ^ k) = digits n x := by
  have hdvd : 256 ^ n ∣ 256 ^ k := Nat.pow_dvd_pow 256 hk
  have hvalue : value (digits n (x % 256 ^ k)) = value (digits n x) := by
    rw [value_digits,value_digits,Nat.mod_mod_of_dvd x hdvd]
  have hbytes := congrArg (digits n) hvalue
  have hleft := digits_value (digits n (x % 256 ^ k))
  have hright := digits_value (digits n x)
  rw [digits_length] at hleft hright
  rwa [hleft,hright] at hbytes

theorem digits_add (m n x : ℕ) : digits (m + n) x = digits m x ++ digits n (x / 256 ^ m) := by
  induction m generalizing x with
  | zero => simp [digits]
  | succ m ih =>
    rw [Nat.add_right_comm,digits,digits,ih,List.cons_append,Nat.div_div_eq_div_mul,Nat.pow_succ']

inductive ByteOrder
  | little | big
  deriving DecidableEq, Repr

namespace ByteOrder

/-- From the order of the digits to the order in memory, and back. -/
def arrange : ByteOrder → List Byte → List Byte
  | little, bs => bs
  | big, bs => bs.reverse

@[simp] theorem arrange_arrange (e : ByteOrder) (bs : List Byte) : e.arrange (e.arrange bs) = bs := by
  cases e <;> simp [arrange]

@[simp] theorem arrange_length (e : ByteOrder) (bs : List Byte) :
    (e.arrange bs).length = bs.length := by
  cases e <;> simp [arrange]

variable {w : ℕ}

/-- The `n` bytes of a word in memory. -/
def store (e : ByteOrder) (n : ℕ) (x : BitVec w) : List Byte := e.arrange (digits n x.toNat)

def load (e : ByteOrder) (w : ℕ) (bs : List Byte) : BitVec w :=
  BitVec.ofNat w (value (e.arrange bs))

@[simp] theorem store_length (e : ByteOrder) (n : ℕ) (x : BitVec w) : (e.store n x).length = n := by
  simp [store]

theorem load_store (e : ByteOrder) {n : ℕ} (hn : w ≤ 8 * n) (x : BitVec w) :
    e.load w (e.store n x) = x := by
  have hx : x.toNat < 256 ^ n := by
    have hpow : 2 ^ w ≤ 2 ^ (8 * n) := Nat.pow_le_pow_right (by decide) hn
    rw [Nat.pow_mul] at hpow
    exact x.isLt.trans_le hpow
  rw [load,store,arrange_arrange,value_digits,Nat.mod_eq_of_lt hx,BitVec.ofNat_toNat,
    BitVec.setWidth_eq]

theorem store_load (e : ByteOrder) {bs : List Byte} (hw : 8 * bs.length = w) :
    e.store bs.length (e.load w bs) = bs := by
  have hlt := value_lt (e.arrange bs)
  have hpow : (2 : ℕ) ^ w = 256 ^ (e.arrange bs).length := by
    rw [← hw,Nat.pow_mul,arrange_length]
  rw [store,load,BitVec.toNat_ofNat,hpow,Nat.mod_eq_of_lt hlt]
  have hdigits := digits_value (e.arrange bs)
  rw [arrange_length] at hdigits
  rw [hdigits,arrange_arrange]

/-- The word that lies in the memory of `e` as `x` lies in the memory of `f`. -/
def convert (f e : ByteOrder) (n : ℕ) (x : BitVec w) : BitVec w := e.load w (f.store n x)

theorem store_convert (f e : ByteOrder) {n : ℕ} (hw : 8 * n = w) (x : BitVec w) :
    e.store n (f.convert e n x) = f.store n x := by
  have hlen : (f.store n x).length = n := store_length f n x
  have hload : e.store (f.store n x).length (e.load w (f.store n x)) = f.store n x :=
    e.store_load (by rw [hlen,hw])
  rwa [hlen] at hload

theorem convert_load (f e : ByteOrder) {bs : List Byte} (hw : 8 * bs.length = w) :
    f.convert e bs.length (f.load w bs) = e.load w bs := by
  rw [convert,f.store_load hw]

end ByteOrder

def split : List ℕ → List Byte → List (List Byte)
  | [], _ => []
  | w::ws, bs => bs.take w::split ws (bs.drop w)

theorem split_flatten {ws : List ℕ} {ls : List (List Byte)} (hlen : ls.map List.length = ws) :
    split ws ls.flatten = ls := by
  subst hlen
  induction ls with
  | nil => rfl
  | cons l ls ih => simp [split,ih]

theorem flatten_split {ws : List ℕ} {bs : List Byte} (hlen : bs.length = ws.sum) :
    (split ws bs).flatten = bs := by
  induction ws generalizing bs with
  | nil => exact (List.length_eq_zero_iff.mp hlen).symm
  | cons w ws ih =>
    have hdrop : (bs.drop w).length = ws.sum := by
      rw [List.length_drop,hlen,List.sum_cons]
      omega
    rw [split,List.flatten_cons,ih hdrop,List.take_append_drop]

theorem split_lengths {ws : List ℕ} {bs : List Byte} (hlen : bs.length = ws.sum) :
    (split ws bs).map List.length = ws := by
  induction ws generalizing bs with
  | nil => rfl
  | cons w ws ih =>
    have hdrop : (bs.drop w).length = ws.sum := by
      rw [List.length_drop,hlen,List.sum_cons]
      omega
    have htake : (bs.take w).length = w := by
      rw [List.length_take,hlen,List.sum_cons]
      omega
    rw [split,List.map_cons,ih hdrop,htake]

namespace Bytes

def toList (b : Bytes) : List Byte := (List.range b.size).map b.get

def ofList (bs : List Byte) : Bytes := tabulate bs.length fun i => bs.getD i 0

@[simp] theorem toList_length (b : Bytes) : b.toList.length = b.size := by simp [toList]

@[simp] theorem ofList_size (bs : List Byte) : (ofList bs).size = bs.length := rfl

@[simp] theorem ofList_toList (b : Bytes) : ofList b.toList = b := by
  ext i hi
  · simp
  · have hi' : i < b.size := by simpa using hi
    rw [ofList,tabulate_get _ (by simpa using hi')]
    simp [toList,List.getD,hi']

@[simp] theorem toList_ofList (bs : List Byte) : (ofList bs).toList = bs := by
  apply List.ext_getElem
  · simp
  · intro i hi hi'
    simp [toList,ofList,tabulate,List.getD,hi']

end Bytes
end ByteBuffers
