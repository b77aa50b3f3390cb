import Mathlib.Data.List.TakeWhile
import Mathlib.Tactic

/-!
# Texts in a buffer

What `snprintf` writes through a pointer into a buffer, and the string that a reader finds there.

* `writeAt` — bytes from an offset on, if the buffer has room for them.
* `snprintf` — at most `size` bytes of a text, the last of them NUL.
* `string` — the bytes in front of the first NUL.
* `decimal` — the conversion `%d`.
* `line`, `readLines` — a line of numbers, and how it is read; `readLines_flatMap` is the round trip.
-/

set_option autoImplicit false

namespace CString

abbrev Byte := BitVec 8

variable {m text bytes : List Byte} {off : Nat}

/-! ## Writing -/

/-- `none` if a byte is written behind the end of the buffer. -/
def writeAt (m : List Byte) (off : Nat) (bytes : List Byte) : Option (List Byte) :=
  if off + bytes.length ≤ m.length then
    some (m.take off ++ bytes ++ m.drop (off + bytes.length))
  else none

/-- With a size of zero nothing is written, not even the NUL. -/
def snprintf (m : List Byte) (off size : Nat) (text : List Byte) : Option (List Byte) :=
  match size with
  | 0 => some m
  | room + 1 => writeAt m off (text.take room ++ [0])

theorem length_writeAt {m' : List Byte} (h : writeAt m off bytes = some m') :
    m'.length = m.length := by
  unfold writeAt at h
  split at h
  · cases h
    simp only [List.length_append, List.length_take, List.length_drop]
    omega
  · cases h

theorem length_snprintf {m' : List Byte} {size : Nat} (h : snprintf m off size text = some m') :
    m'.length = m.length := by
  cases size with
  | zero => cases h; rfl
  | succ room => exact length_writeAt h

theorem writeAt_fits (hpre : text <+: m) (hfit : text.length + bytes.length ≤ m.length) :
    ∃ m', writeAt m text.length bytes = some m' ∧ text ++ bytes <+: m' := by
  refine ⟨_, if_pos hfit, ?_⟩
  rw [← List.prefix_iff_eq_take.1 hpre]
  exact List.prefix_append _ _

/-- **A text that fits** behind what is there already is written whole. -/
theorem snprintf_fits (hpre : text <+: m) (hfit : text.length + bytes.length < m.length) :
    ∃ m', snprintf m text.length m.length bytes = some m' ∧ text ++ bytes ++ [0] <+: m' := by
  obtain ⟨room, hroom⟩ : ∃ room, m.length = room + 1 := ⟨m.length - 1, by omega⟩
  have hwhole : bytes.take room = bytes := List.take_of_length_le (by omega)
  have hroomy : text.length + (bytes ++ [0]).length ≤ m.length := by
    rw [List.length_append, List.length_singleton]
    omega
  have hwrite := writeAt_fits hpre hroomy
  rw [List.append_assoc]
  rw [hroom, snprintf, hwhole]
  exact hwrite

/-- **A text at the start** is cut off where the buffer ends. -/
theorem snprintf_cut (hm : m ≠ []) (text : List Byte) :
    ∃ m', snprintf m 0 m.length text = some m' ∧ text.take (m.length - 1) ++ [0] <+: m' := by
  obtain ⟨room, hroom⟩ : ∃ room, m.length = room + 1 :=
    ⟨m.length - 1, by have := List.length_pos_iff.2 hm; omega⟩
  have hfit : ([] : List Byte).length + (text.take room ++ [0]).length ≤ m.length := by
    rw [List.length_append, List.length_singleton, List.length_take, List.length_nil]
    omega
  obtain ⟨m', hwrite, hprefix⟩ := writeAt_fits List.nil_prefix hfit
  rw [hroom]
  exact ⟨m', hwrite, hprefix⟩

/-- **The size of the whole buffer is too much** for a text that is not at the start and does not
    fit: cut off or not, it ends behind the buffer. -/
theorem snprintf_overruns (hm : m ≠ []) (hoff : 0 < off)
    (hover : m.length ≤ off + text.length) : snprintf m off m.length text = none := by
  obtain ⟨room, hroom⟩ : ∃ room, m.length = room + 1 :=
    ⟨m.length - 1, by have := List.length_pos_iff.2 hm; omega⟩
  rw [hroom]
  refine if_neg ?_
  rw [List.length_append, List.length_singleton, List.length_take]
  omega

/-! ## Reading -/

/-- `none` if there is no NUL in the buffer. -/
def string (m : List Byte) : Option (List Byte) :=
  if 0 ∈ m then some (m.takeWhile (· ≠ 0)) else none

@[simp] theorem string_nil : string [] = none := rfl

theorem string_of_prefix (hfree : 0 ∉ text) (hpre : text ++ [0] <+: m) : string m = some text := by
  obtain ⟨rest, rfl⟩ := hpre
  have hkept : ∀ b ∈ text, decide (b ≠ 0) = true := by
    intro b hb
    exact decide_eq_true (fun h0 => hfree (h0 ▸ hb))
  rw [string, if_pos (by simp), List.append_assoc, List.takeWhile_append_of_pos hkept]
  simp

theorem string_eq_nil_iff : string m = some [] ↔ m.head? = some 0 := by
  cases m with
  | nil => simp [string]
  | cons b rest =>
    rw [List.head?_cons, Option.some.injEq, string, List.takeWhile_cons]
    by_cases hb : b = 0
    · simp [hb]
    · rw [if_pos (decide_eq_true hb)]
      simp only [hb, iff_false]
      split <;> simp

/-! ## Numbers -/

def ascii (c : Char) : Byte := BitVec.ofNat 8 c.toNat

def decimal (n : Int) : List Byte :=
  (if n < 0 then [ascii '-'] else []) ++ (Nat.toDigits 10 n.natAbs).map ascii

theorem length_decimal_pos (n : Int) : 0 < (decimal n).length := by
  rw [decimal, List.length_append, List.length_map]
  exact Nat.add_pos_right _ Nat.length_toDigits_pos

theorem ascii_ne_zero {c : Char} (hc : c.isDigit = true) : ascii c ≠ 0 := by
  have hrange : 48 ≤ c.toNat ∧ c.toNat ≤ 57 := Char.isDigit_iff_toNat.1 hc
  intro h0
  have hnat : (ascii c).toNat = 0 := congrArg BitVec.toNat h0
  rw [ascii, BitVec.toNat_ofNat] at hnat
  omega

theorem zero_notMem_decimal (n : Int) : 0 ∉ decimal n := by
  rw [decimal, List.mem_append, not_or]
  constructor
  · split <;> decide
  · intro h0
    obtain ⟨c, hc, hzero⟩ := List.mem_map.1 h0
    exact ascii_ne_zero (Nat.isDigit_of_mem_toDigits (by decide) (by decide) hc) hzero

def readDigits (bs : List Byte) : Nat := bs.foldl (fun n b => 10 * n + (b.toNat - 48)) 0

def readDecimal (bs : List Byte) : Int :=
  if bs.head? = some (ascii '-') then -readDigits bs.tail else readDigits bs

theorem readDigits_toDigits (n : Nat) : readDigits ((Nat.toDigits 10 n).map ascii) = n := by
  have hdigit : ∀ (l : List Char) (m : Nat), (∀ c ∈ l, c.isDigit = true) →
      (l.map ascii).foldl (fun n b => 10 * n + (b.toNat - 48)) m = Nat.ofDigitChars 10 l m := by
    intro l
    induction l with
    | nil => exact fun m _ => rfl
    | cons c l ih =>
      intro m hl
      have hrange : 48 ≤ c.toNat ∧ c.toNat ≤ 57 :=
        Char.isDigit_iff_toNat.1 (hl c List.mem_cons_self)
      have hbyte : (ascii c).toNat = c.toNat := by
        rw [ascii, BitVec.toNat_ofNat]
        omega
      rw [List.map_cons, List.foldl_cons, hbyte, ih _ fun c hc => hl c (List.mem_cons_of_mem _ hc)]
      rfl
  rw [readDigits, hdigit _ _ fun c hc => Nat.isDigit_of_mem_toDigits (by decide) (by decide) hc,
    Nat.ofDigitChars_ten_toDigits]

/-- **A number is read back.** -/
theorem readDecimal_decimal (n : Int) : readDecimal (decimal n) = n := by
  by_cases hneg : n < 0
  · rw [decimal, if_pos hneg, readDecimal, List.singleton_append, List.head?_cons, if_pos rfl,
      List.tail_cons, readDigits_toDigits]
    omega
  · have hfirst : ((Nat.toDigits 10 n.natAbs).map ascii).head? ≠ some (ascii '-') := by
      rw [List.head?_map]
      intro hminus
      obtain ⟨c, hc, hbyte⟩ := Option.map_eq_some_iff.1 hminus
      have hdigit : c.isDigit = true :=
        Nat.isDigit_of_mem_toDigits (by decide) (by decide) (List.mem_of_mem_head? hc)
      have hrange : 48 ≤ c.toNat ∧ c.toNat ≤ 57 := Char.isDigit_iff_toNat.1 hdigit
      have hnat : (ascii c).toNat = 45 := congrArg BitVec.toNat hbyte
      rw [ascii, BitVec.toNat_ofNat] at hnat
      omega
    rw [decimal, if_neg hneg, List.nil_append, readDecimal, if_neg hfirst, readDigits_toDigits]
    omega

theorem length_decimal_le {n : Int} {k : Nat} (hk : 0 < k) (hn : n.natAbs < 10 ^ k) :
    (decimal n).length ≤ k + 1 := by
  have hdigits := (Nat.length_toDigits_le_iff (by decide) hk).2 hn
  rw [decimal, List.length_append, List.length_map]
  split
  · rw [List.length_singleton]
    omega
  · rw [List.length_nil]
    omega

/-! ## Lines -/

/-- Numbers with a separator between them and a mark at the end. -/
def line (sep mark : Byte) (ns : List Int) : List Byte :=
  [sep].intercalate (ns.map decimal) ++ [mark]

def readLines (sep mark : Byte) (text : List Byte) : List (List Int) :=
  (text.splitOn mark).dropLast.map (fun l => (l.splitOn sep).map readDecimal)

variable {sep mark b : Byte}

/-- What comes before `-` and the digits is not in a number. -/
theorem notMem_decimal (hb : b.toNat < 45) (n : Int) : b ∉ decimal n := by
  rw [decimal, List.mem_append, not_or]
  constructor
  · intro hsign
    split at hsign
    · rw [List.mem_singleton.1 hsign] at hb
      revert hb
      decide
    · cases hsign
  · intro hdigit
    obtain ⟨c, hc, rfl⟩ := List.mem_map.1 hdigit
    have hrange : 48 ≤ c.toNat ∧ c.toNat ≤ 57 :=
      Char.isDigit_iff_toNat.1 (Nat.isDigit_of_mem_toDigits (by decide) (by decide) hc)
    rw [ascii, BitVec.toNat_ofNat] at hb
    omega

theorem notMem_line (hb : b.toNat < 45) (hsep : b ≠ sep) (hmark : b ≠ mark) (ns : List Int) :
    b ∉ line sep mark ns := by
  rw [line, List.mem_append, not_or]
  refine ⟨?_, fun h => hmark (List.mem_singleton.1 h)⟩
  induction ns with
  | nil => exact List.not_mem_nil
  | cons n ns ih =>
    cases ns with
    | nil =>
      rw [List.map_singleton, List.intercalate_singleton]
      exact notMem_decimal hb n
    | cons m ns =>
      rw [List.map_cons, List.map_cons, List.intercalate_cons_cons, List.mem_append,
        List.mem_append, not_or, not_or]
      exact ⟨⟨notMem_decimal hb n, fun h => hsep (List.mem_singleton.1 h)⟩, ih⟩

theorem length_line_le {k : Nat} (hk : 0 < k) {ns : List Int}
    (hns : ∀ n ∈ ns, n.natAbs < 10 ^ k) : (line sep mark ns).length ≤ (k + 2) * ns.length + 1 := by
  have hbody : ([sep].intercalate (ns.map decimal)).length ≤ (k + 2) * ns.length := by
    induction ns with
    | nil => exact Nat.zero_le _
    | cons n ns ih =>
      have hfirst := length_decimal_le hk (hns n List.mem_cons_self)
      have hrest := ih fun m hm => hns m (List.mem_cons_of_mem _ hm)
      cases ns with
      | nil =>
        rw [List.map_singleton, List.intercalate_singleton, List.length_singleton]
        omega
      | cons m ns =>
        rw [List.map_cons] at hrest
        rw [List.map_cons, List.map_cons, List.intercalate_cons_cons, List.length_append,
          List.length_append, List.length_singleton, List.length_cons (a := n), Nat.mul_succ]
        omega
  rw [line, List.length_append, List.length_singleton]
  omega

/-- The numbers of one line. -/
theorem readLine (hsep : sep.toNat < 45) {ns : List Int} (hns : ns ≠ []) :
    (([sep].intercalate (ns.map decimal)).splitOn sep).map readDecimal = ns := by
  have hfree : ∀ l ∈ ns.map decimal, sep ∉ l := by
    intro l hl
    obtain ⟨n, -, rfl⟩ := List.mem_map.1 hl
    exact notMem_decimal hsep n
  rw [List.splitOn_intercalate sep hfree (by simpa using hns), List.map_map]
  exact List.map_id'' readDecimal_decimal ns

/-- **The round trip**: the lines of a text are read back. -/
theorem readLines_flatMap (hsep : sep.toNat < 45) (hmark : mark.toNat < 45) (hne : mark ≠ sep)
    {ls : List (List Int)} (hls : ∀ ns ∈ ls, ns ≠ []) :
    readLines sep mark (ls.flatMap (line sep mark)) = ls := by
  induction ls with
  | nil =>
    rw [readLines, List.flatMap_nil, List.splitOn_nil]
    rfl
  | cons ns ls ih =>
    have hrest := ih fun ns hns => hls ns (List.mem_cons_of_mem _ hns)
    have hfree : mark ∉ [sep].intercalate (ns.map decimal) := fun h => by
      have hbody : mark ∉ line sep sep ns := notMem_line hmark hne hne ns
      exact hbody (List.mem_append_left _ h)
    have hsome : (ls.flatMap (line sep mark)).splitOn mark ≠ [] := List.splitOn_ne_nil _ _
    rw [readLines] at hrest ⊢
    rw [List.flatMap_cons, line, List.append_assoc, List.singleton_append,
      List.splitOn_append_cons_self_of_not_mem hfree, List.dropLast_cons_of_ne_nil hsome,
      List.map_cons, hrest, readLine hsep (hls ns List.mem_cons_self)]

end CString
