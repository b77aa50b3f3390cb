import Mathlib.Tactic

/-!
# Words and bit-fields in memory

A structure of a C program in memory, on a machine of either byte order: the memory is a list of
bytes, a 32-bit word is four of them, and the bit-fields of a unit are laid out from its lowest bit
on a little-endian machine and from its highest bit on a big-endian one.

* `load`, `store` — a word at an offset, in the order of the machine.
* `toNetwork` — the conversion between the order of the machine and that of the network; it is its
  own inverse.
* `BitField`, `getField`, `setField` — a bit-field of the unit at offset 0.
* `convert`, `convertAll` — words converted in place.
* `byteIn`, `getFieldIn`, `convertAllIn` — the same accesses, which fail outside the memory.
* `Block` — memory of a fixed size, with the offsets that were written to.
* `bits` — what goes over the wire, most significant bit first.

Principal results: `toNetwork_load` — a converted word is the big-endian one;
`convertAll_convertAll` — converting the same words twice restores the memory; `bits_append`,
`bits_bigBytes`.
-/

set_option autoImplicit false

namespace Memory

abbrev Byte := BitVec 8
abbrev Word := BitVec 32

inductive ByteOrder where
  | big
  | little
  deriving DecidableEq, Repr

/-! ## Words -/

/-- The four bytes, most significant first. -/
def bigBytes (w : Word) : List Byte :=
  [w.extractLsb' 24 8, w.extractLsb' 16 8, w.extractLsb' 8 8, w.extractLsb' 0 8]

/-- The bytes of a word as they stand in memory. -/
def wordBytes : ByteOrder → Word → List Byte
  | .big, w => bigBytes w
  | .little, w => (bigBytes w).reverse

/-- The word at an offset. -/
def load (o : ByteOrder) (m : List Byte) (off : Nat) : Word :=
  match o with
  | .big => m.getD off 0 ++ m.getD (off + 1) 0 ++ m.getD (off + 2) 0 ++ m.getD (off + 3) 0
  | .little => m.getD (off + 3) 0 ++ m.getD (off + 2) 0 ++ m.getD (off + 1) 0 ++ m.getD off 0

def store (o : ByteOrder) (m : List Byte) (off : Nat) (w : Word) : List Byte :=
  m.take off ++ wordBytes o w ++ m.drop (off + 4)

def byteSwap (w : Word) : Word :=
  w.extractLsb' 0 8 ++ w.extractLsb' 8 8 ++ w.extractLsb' 16 8 ++ w.extractLsb' 24 8

/-- `htonl`, which is also `ntohl`. -/
def toNetwork : ByteOrder → Word → Word
  | .big, w => w
  | .little, w => byteSwap w

theorem extract_append (a b c d : Byte) :
    (a ++ b ++ c ++ d : Word).extractLsb' 24 8 = a ∧ (a ++ b ++ c ++ d : Word).extractLsb' 16 8 = b ∧
      (a ++ b ++ c ++ d : Word).extractLsb' 8 8 = c ∧
        (a ++ b ++ c ++ d : Word).extractLsb' 0 8 = d := by
  refine ⟨?_, ?_, ?_, ?_⟩ <;> ext i hi <;>
    simp only [BitVec.getElem_extractLsb', BitVec.getLsbD_append] <;>
    grind

theorem append_extract (w : Word) : (w.extractLsb' 24 8 ++ w.extractLsb' 16 8 ++
    w.extractLsb' 8 8 ++ w.extractLsb' 0 8 : Word) = w := by
  ext i hi
  simp only [BitVec.getElem_append, BitVec.getElem_extractLsb']
  grind

@[simp] theorem length_wordBytes (o : ByteOrder) (w : Word) : (wordBytes o w).length = 4 := by
  cases o <;> rfl

theorem byteSwap_byteSwap (w : Word) : byteSwap (byteSwap w) = w := by
  obtain ⟨h3, h2, h1, h0⟩ := extract_append (w.extractLsb' 0 8) (w.extractLsb' 8 8)
    (w.extractLsb' 16 8) (w.extractLsb' 24 8)
  rw [byteSwap, byteSwap, h3, h2, h1, h0]
  exact append_extract w

@[simp] theorem toNetwork_toNetwork (o : ByteOrder) (w : Word) :
    toNetwork o (toNetwork o w) = w := by
  cases o with
  | big => rfl
  | little => exact byteSwap_byteSwap w

/-- A word in network order stands in memory most significant byte first. -/
theorem wordBytes_toNetwork (o : ByteOrder) (w : Word) :
    wordBytes o (toNetwork o w) = bigBytes w := by
  cases o with
  | big => rfl
  | little =>
    obtain ⟨h3, h2, h1, h0⟩ := extract_append (w.extractLsb' 0 8) (w.extractLsb' 8 8)
      (w.extractLsb' 16 8) (w.extractLsb' 24 8)
    simp only [wordBytes, toNetwork, bigBytes, byteSwap, h3, h2, h1, h0]
    rfl

/-- **A converted word** is the big-endian one. -/
theorem toNetwork_load (o : ByteOrder) (m : List Byte) (off : Nat) :
    toNetwork o (load o m off) = load .big m off := by
  cases o with
  | big => rfl
  | little =>
    obtain ⟨h3, h2, h1, h0⟩ := extract_append (m.getD (off + 3) 0) (m.getD (off + 2) 0)
      (m.getD (off + 1) 0) (m.getD off 0)
    simp only [toNetwork, load, byteSwap, h3, h2, h1, h0]

/-! ## Loads and stores -/

variable {o : ByteOrder} {m : List Byte} {off off' : Nat}

theorem length_store (h : off + 4 ≤ m.length) (w : Word) : (store o m off w).length = m.length := by
  simp only [store, List.length_append, List.length_take, List.length_drop, length_wordBytes]
  omega

theorem getD_store (h : off + 4 ≤ m.length) (w : Word) (i : Nat) :
    (store o m off w).getD i 0 =
      if off ≤ i ∧ i < off + 4 then (wordBytes o w).getD (i - off) 0 else m.getD i 0 := by
  have htake : (m.take off).length = off := by rw [List.length_take]; omega
  simp only [store, List.getD_eq_getElem?_getD, List.getElem?_append, List.length_append, htake,
    length_wordBytes, List.getElem?_take, List.getElem?_drop]
  rcases Nat.lt_or_ge i off with hlt | hge
  · rw [if_pos (by omega), if_pos hlt, if_pos hlt, if_neg (by omega)]
  · rcases Nat.lt_or_ge i (off + 4) with hin | hout
    · rw [if_pos hin, if_neg (by omega), if_pos ⟨hge, hin⟩]
    · rw [if_neg (by omega), if_neg (by omega)]
      congr 2
      omega

theorem load_store (h : off + 4 ≤ m.length) (w : Word) : load o (store o m off w) off = w := by
  have hget : ∀ k, k < 4 → (store o m off w).getD (off + k) 0 = (wordBytes o w).getD k 0 := by
    intro k hk
    rw [getD_store h, if_pos (by omega), Nat.add_sub_cancel_left]
  have h0 := hget 0 (by omega)
  rw [Nat.add_zero] at h0
  cases o <;> simp only [load, h0, hget 1 (by omega), hget 2 (by omega), hget 3 (by omega)] <;>
    exact append_extract w

/-- Words that do not overlap. -/
def Apart (off off' : Nat) : Prop := off + 4 ≤ off' ∨ off' + 4 ≤ off

instance (off off' : Nat) : Decidable (Apart off off') := by unfold Apart; infer_instance

theorem Apart.symm (h : Apart off off') : Apart off' off := Or.symm h

theorem load_store_apart (h : off + 4 ≤ m.length) (w : Word) (hoff : Apart off off') :
    load o (store o m off w) off' = load o m off' := by
  have hget : ∀ k, k < 4 → (store o m off w).getD (off' + k) 0 = m.getD (off' + k) 0 := by
    intro k hk
    rw [getD_store h, if_neg]
    unfold Apart at hoff
    omega
  have h0 := hget 0 (by omega)
  rw [Nat.add_zero] at h0
  cases o <;> simp only [load, h0, hget 1 (by omega), hget 2 (by omega), hget 3 (by omega)]

/-- Memories of one length with the same bytes are the same. -/
theorem ext_getD {m m' : List Byte} (hlen : m.length = m'.length)
    (h : ∀ i, m.getD i 0 = m'.getD i 0) : m = m' := by
  refine List.ext_getElem hlen fun i h1 h2 => ?_
  have hi := h i
  simpa [List.getD_eq_getElem?_getD, h1, h2] using hi

theorem store_load (h : off + 4 ≤ m.length) : store o m off (load o m off) = m := by
  refine ext_getD (length_store h _) fun i => ?_
  rw [getD_store h]
  split
  · rename_i hi
    obtain ⟨k, rfl⟩ := Nat.exists_eq_add_of_le hi.1
    have hk : k < 4 := by omega
    rw [Nat.add_sub_cancel_left]
    cases o <;> simp only [load, wordBytes, bigBytes, extract_append] <;> interval_cases k <;> rfl
  · rfl

theorem store_store (h : off + 4 ≤ m.length) (v w : Word) :
    store o (store o m off v) off w = store o m off w := by
  have h' : off + 4 ≤ (store o m off v).length := by rw [length_store h]; exact h
  refine ext_getD (by rw [length_store h', length_store h, length_store h]) fun i => ?_
  rw [getD_store h', getD_store h, getD_store h]
  split <;> rfl

theorem store_comm (h : off + 4 ≤ m.length) (h' : off' + 4 ≤ m.length) (hoff : Apart off off')
    (v w : Word) :
    store o (store o m off v) off' w = store o (store o m off' w) off v := by
  have hl : off' + 4 ≤ (store o m off v).length := by rw [length_store h]; exact h'
  have hr : off + 4 ≤ (store o m off' w).length := by rw [length_store h']; exact h
  refine ext_getD (by rw [length_store hl, length_store h, length_store hr, length_store h'])
    fun i => ?_
  unfold Apart at hoff
  rw [getD_store hl, getD_store h, getD_store hr, getD_store h']
  split
  · rw [if_neg (by omega)]
  · rfl

/-! ## Conversion in place -/

/-- One word is put into the other order. -/
def convert (o : ByteOrder) (m : List Byte) (off : Nat) : List Byte :=
  store o m off (toNetwork o (load o m off))

def convertAll (o : ByteOrder) (offs : List Nat) (m : List Byte) : List Byte :=
  offs.foldl (convert o) m

theorem convertAll_cons (o : ByteOrder) (off : Nat) (offs : List Nat) (m : List Byte) :
    convertAll o (off :: offs) m = convertAll o offs (convert o m off) := rfl

theorem length_convert (h : off + 4 ≤ m.length) : (convert o m off).length = m.length :=
  length_store h _

theorem convert_convert (h : off + 4 ≤ m.length) : convert o (convert o m off) off = m := by
  unfold convert
  rw [load_store h, store_store h, toNetwork_toNetwork, store_load h]

theorem convert_comm (h : off + 4 ≤ m.length) (h' : off' + 4 ≤ m.length) (hoff : Apart off off') :
    convert o (convert o m off) off' = convert o (convert o m off') off := by
  unfold convert
  rw [load_store_apart h _ hoff, load_store_apart h' _ hoff.symm, store_comm h h' hoff]

theorem length_convertAll {offs : List Nat} (h : ∀ off ∈ offs, off + 4 ≤ m.length) :
    (convertAll o offs m).length = m.length := by
  induction offs generalizing m with
  | nil => rfl
  | cons off offs ih =>
    have hoff := h off List.mem_cons_self
    have hlen : (convert o m off).length = m.length := length_convert hoff
    refine (ih fun off' hoff' => ?_).trans hlen
    rw [hlen]
    exact h off' (List.mem_cons_of_mem _ hoff')

/-- A word apart from the others may be converted before or after them. -/
theorem convertAll_convert {offs : List Nat} (h : ∀ off ∈ offs, off + 4 ≤ m.length)
    (hoff : off + 4 ≤ m.length) (hap : ∀ off' ∈ offs, Apart off off') :
    convertAll o offs (convert o m off) = convert o (convertAll o offs m) off := by
  induction offs generalizing m with
  | nil => rfl
  | cons off' offs ih =>
    have hoff' := h off' List.mem_cons_self
    have hlen : (convert o m off').length = m.length := length_convert hoff'
    rw [convertAll_cons, convertAll_cons, convert_comm hoff hoff' (hap off' List.mem_cons_self)]
    apply ih
    · rw [hlen]; exact fun x hx => h x (List.mem_cons_of_mem _ hx)
    · rw [hlen]; exact hoff
    · exact fun x hx => hap x (List.mem_cons_of_mem _ hx)

/-- **Converting the same words twice restores the memory.** -/
theorem convertAll_convertAll {offs : List Nat} (h : ∀ off ∈ offs, off + 4 ≤ m.length)
    (hap : offs.Pairwise Apart) : convertAll o offs (convertAll o offs m) = m := by
  induction offs generalizing m with
  | nil => rfl
  | cons off offs ih =>
    obtain ⟨hhead, htail⟩ := List.pairwise_cons.1 hap
    have hoff := h off List.mem_cons_self
    have hrest : ∀ off' ∈ offs, off' + 4 ≤ m.length :=
      fun off' hoff' => h off' (List.mem_cons_of_mem _ hoff')
    have hlen : (convert o m off).length = m.length := length_convert hoff
    have hlen' : (convertAll o offs m).length = m.length := length_convertAll hrest
    calc convertAll o offs (convert o (convertAll o offs (convert o m off)) off)
        = convertAll o offs (convert o (convert o (convertAll o offs m) off) off) := by
          rw [convertAll_convert hrest hoff hhead]
      _ = convertAll o offs (convertAll o offs m) := by
          rw [convert_convert (by rw [hlen']; exact hoff)]
      _ = m := ih hrest htail

theorem load_convertAll_apart {offs : List Nat} (h : ∀ off' ∈ offs, off' + 4 ≤ m.length)
    (hap : ∀ off' ∈ offs, Apart off' off) : load o (convertAll o offs m) off = load o m off := by
  induction offs generalizing m with
  | nil => rfl
  | cons off' offs ih =>
    have hoff' := h off' List.mem_cons_self
    have hlen : (convert o m off').length = m.length := length_convert hoff'
    refine (ih (fun x hx => ?_) fun x hx => hap x (List.mem_cons_of_mem _ hx)).trans ?_
    · rw [hlen]; exact h x (List.mem_cons_of_mem _ hx)
    · exact load_store_apart hoff' _ (hap off' List.mem_cons_self)

/-- A converted word is read as it stands in network order. -/
theorem load_convertAll {offs : List Nat} (h : ∀ off ∈ offs, off + 4 ≤ m.length)
    (hap : offs.Pairwise Apart) (hmem : off ∈ offs) :
    load o (convertAll o offs m) off = load .big m off := by
  induction offs generalizing m with
  | nil => cases hmem
  | cons off' offs ih =>
    obtain ⟨hhead, htail⟩ := List.pairwise_cons.1 hap
    have hoff' := h off' List.mem_cons_self
    have hlen : (convert o m off').length = m.length := length_convert hoff'
    have hrest : ∀ x ∈ offs, x + 4 ≤ (convert o m off').length := by
      rw [hlen]; exact fun x hx => h x (List.mem_cons_of_mem _ hx)
    rcases List.mem_cons.1 hmem with rfl | hin
    · refine (load_convertAll_apart hrest fun x hx => (hhead x hx).symm).trans ?_
      rw [convert, load_store hoff', toNetwork_load]
    · refine (ih hrest htail hin).trans ?_
      rw [← toNetwork_load o, ← toNetwork_load o, convert, load_store_apart hoff' _ (hhead off hin)]

/-! ## Bit-fields -/

/-- A bit-field of the unit at offset 0; `before` is the width of those declared before it. -/
structure BitField (width : Nat) where
  before : Nat

variable {w : Nat}

/-- Where the field starts, from the lowest bit of the unit. -/
def BitField.shift (f : BitField w) : ByteOrder → Nat
  | .big => 32 - f.before - w
  | .little => f.before

def getField (o : ByteOrder) (m : List Byte) (f : BitField w) : BitVec w :=
  (load o m 0).extractLsb' (f.shift o) w

/-- A word with the bits from `off` on replaced. -/
def replaceBits (u : Word) (off : Nat) (v : BitVec w) : Word :=
  u &&& ~~~((BitVec.allOnes w).setWidth 32 <<< off) ||| v.setWidth 32 <<< off

def setField (o : ByteOrder) (m : List Byte) (f : BitField w) (v : BitVec w) : List Byte :=
  store o m 0 (replaceBits (load o m 0) (f.shift o) v)

theorem getLsbD_replaceBits (u : Word) {off : Nat} (v : BitVec w) (hw : off + w ≤ 32) (i : Nat) :
    (replaceBits u off v).getLsbD i =
      if off ≤ i ∧ i < off + w then v.getLsbD (i - off) else u.getLsbD i := by
  simp only [replaceBits, BitVec.getLsbD_or, BitVec.getLsbD_and, BitVec.getLsbD_not,
    BitVec.getLsbD_shiftLeft, BitVec.getLsbD_setWidth, BitVec.getLsbD_allOnes]
  by_cases h32 : i < 32
  · by_cases hlo : off ≤ i
    · by_cases hhi : i < off + w
      · simp [h32, hlo, hhi, show i - off < w by omega, show i - off < 32 by omega,
          show ¬ i < off by omega]
      · simp [h32, hlo, hhi, show ¬ i - off < w by omega,
          BitVec.getLsbD_of_ge v (i - off) (by omega)]
    · simp [h32, hlo, show i < off by omega]
  · have hu : u.getLsbD i = false := BitVec.getLsbD_of_ge u i (by omega)
    simp [h32, hu, show ¬ i < off + w by omega]

/-! ## Reading inside the memory -/

def byteIn (m : List Byte) (off : Nat) : Option Byte := m[off]?

def getFieldIn (o : ByteOrder) (m : List Byte) (f : BitField w) : Option (BitVec w) :=
  if 4 ≤ m.length then some (getField o m f) else none

def convertIn (o : ByteOrder) (m : List Byte) (off : Nat) : Option (List Byte) :=
  if off + 4 ≤ m.length then some (convert o m off) else none

def convertAllIn (o : ByteOrder) (offs : List Nat) (m : List Byte) : Option (List Byte) :=
  offs.foldlM (convertIn o) m

theorem getFieldIn_eq (h : 4 ≤ m.length) (f : BitField w) :
    getFieldIn o m f = some (getField o m f) := if_pos h

theorem convertAllIn_eq {offs : List Nat} (h : ∀ off ∈ offs, off + 4 ≤ m.length) :
    convertAllIn o offs m = some (convertAll o offs m) := by
  induction offs generalizing m with
  | nil => rfl
  | cons off offs ih =>
    have hoff := h off List.mem_cons_self
    have hrest : ∀ x ∈ offs, x + 4 ≤ (convert o m off).length := by
      rw [length_convert hoff]
      exact fun x hx => h x (List.mem_cons_of_mem _ hx)
    have hhead : convertIn o m off = some (convert o m off) := if_pos hoff
    unfold convertAllIn at ih ⊢
    rw [List.foldlM_cons, hhead, convertAll_cons]
    exact ih hrest

/-! ## Allocated blocks -/

/-- A block of memory and the offsets at which words were stored through a pointer to it. -/
structure Block where
  bytes : List Byte
  stores : List Nat
  deriving DecidableEq, Repr

def Block.zeros (len : Nat) : Block := ⟨List.replicate len 0, []⟩

/-- What is stored behind the end is not in the block. -/
def Block.store (o : ByteOrder) (b : Block) (off : Nat) (v : Word) : Block where
  bytes := if off + 4 ≤ b.bytes.length then Memory.store o b.bytes off v else b.bytes
  stores := b.stores ++ [off]

def Block.setField (o : ByteOrder) (b : Block) (f : BitField w) (v : BitVec w) : Block :=
  b.store o 0 (replaceBits (load o b.bytes 0) (f.shift o) v)

def Block.InBounds (b : Block) : Prop := ∀ off ∈ b.stores, off + 4 ≤ b.bytes.length

@[simp] theorem Block.length_store (b : Block) (off : Nat) (v : Word) :
    (b.store o off v).bytes.length = b.bytes.length := by
  unfold Block.store
  dsimp only
  split
  · rename_i h
    exact Memory.length_store h v
  · rfl

theorem Block.bytes_setField {b : Block} (h : 4 ≤ b.bytes.length) (f : BitField w) (v : BitVec w) :
    (b.setField o f v).bytes = Memory.setField o b.bytes f v := if_pos (by omega)

@[simp] theorem load_zeros (len off : Nat) : load o (List.replicate len 0) off = 0 := by
  have hget : ∀ i, (List.replicate len (0 : Byte)).getD i 0 = 0 := by
    intro i
    rw [List.getD_eq_getElem?_getD, List.getElem?_replicate]
    split <;> rfl
  cases o <;> simp only [load, hget] <;> rfl

/-- The bytes before the word stay. -/
theorem Block.getD_store_of_lt (b : Block) (v : Word) {i : Nat} (hi : i < off) :
    (b.store o off v).bytes.getD i 0 = b.bytes.getD i 0 := by
  unfold Block.store
  dsimp only
  split
  · rename_i h
    rw [getD_store h, if_neg (fun hin => Nat.not_le_of_lt hi hin.1)]
  · rfl

/-! ## On the wire -/

/-- The bits of a field, most significant first. -/
def bitsOf (v : BitVec w) : List Bool := (List.range w).map v.getMsbD

/-- The bits of a memory, byte by byte. -/
def bits (m : List Byte) : List Bool := m.flatMap bitsOf

theorem bitsOf_append {k : Nat} (v : BitVec w) (u : BitVec k) :
    bitsOf (v ++ u) = bitsOf v ++ bitsOf u := by
  refine List.ext_getElem (by simp [bitsOf]) fun i h1 h2 => ?_
  simp only [bitsOf, List.getElem_append, List.length_map, List.length_range, List.getElem_map,
    List.getElem_range, BitVec.getMsbD_append]
  split <;> rename_i hi
  · simp [hi]
  · simp [hi]

theorem bits_append (m m' : List Byte) : bits (m ++ m') = bits m ++ bits m' :=
  List.flatMap_append

@[simp] theorem bits_nil : bits [] = [] := rfl

@[simp] theorem bits_cons (b : Byte) (m : List Byte) : bits (b :: m) = bitsOf b ++ bits m := rfl

theorem bits_bigBytes (v : Word) : bits (bigBytes v) = bitsOf v := by
  conv_rhs => rw [← append_extract v]
  simp only [bitsOf_append, bigBytes, bits_cons, bits_nil, List.append_nil, List.append_assoc]

end Memory
