/-
What well-formed text is, and where bytes stop being so.

Bytes are well formed if they are the encodings of characters, one behind the other. The decoder goes by bytes, and
remembers a character that has begun; `Completes` says which bytes complete it, and to which code point.
- `encoding_of_completes`, `completes_of_encoding`: a first byte and the bytes that complete it are the encoding of a
  character, and every character beyond ASCII is encoded so.
- `decodeFrom_cases`: what the decoder does with any bytes: it reads characters to the end, or stops behind them.
- `decode_eq_ok_iff`: the characters that are decoded are those whose encodings the bytes are.
- `faultAt_of_decode`: a fault stands behind the longest first part that is well formed, and tells whether bytes are
  missing or wrong.
-/
import Mathlib.Order.Bounds.Defs
import Mathlib.Tactic.ByContra
import Mathlib.Tactic.SplitIfs
import Xdr.Text.Utf8

namespace Xdr.Text.Utf8

variable {p : Pending} {b x y z : UInt8} {bytes tail rest : List UInt8} {cs : List Char} {c : Char}
  {n v code good : Nat} {low high : UInt8} {f : Fault}

/-! ## Well-formed bytes -/

/-- the encodings of characters, one behind the other -/
def encode (cs : List Char) : List UInt8 := cs.flatMap String.utf8EncodeChar

def WellFormed (bytes : List UInt8) : Prop := ∃ cs, encode cs = bytes

/-- a fault of bytes that are not well formed: where their longest well-formed first part ends, and whether more bytes
would make them well formed -/
structure FaultAt (bytes : List UInt8) (f : Fault) : Prop where
  longest : IsGreatest {n | n ≤ bytes.length ∧ WellFormed (bytes.take n)} f.validUpTo
  incomplete_iff : f.length = none ↔ ∃ more, WellFormed (bytes ++ more)

/-- bytes that begin with no character, though there are some -/
def Stuck (bytes : List UInt8) : Prop := bytes ≠ [] ∧ ∀ c rest, bytes ≠ String.utf8EncodeChar c ++ rest

theorem encode_cons (c : Char) (cs : List Char) : encode (c :: cs) = String.utf8EncodeChar c ++ encode cs :=
  List.flatMap_cons

/-! ## Characters that have begun -/

/-- a character that has begun, with one more byte -/
def Pending.next (p : Pending) (b : UInt8) : Pending := { code := p.extend b, read := p.read + 1, due := p.due - 1 }

/-- the byte can come next -/
def Pending.Allows (p : Pending) (b : UInt8) : Prop := p.low ≤ b ∧ b ≤ p.high

instance (p : Pending) (b : UInt8) : Decidable (p.Allows b) := inferInstanceAs (Decidable (_ ∧ _))

theorem Pending.allows_iff : p.Allows b ↔ p.low.toNat ≤ b.toNat ∧ b.toNat ≤ p.high.toNat :=
  and_congr UInt8.le_iff_toNat_le UInt8.le_iff_toNat_le

/-- the bytes that complete a character that has begun, and its code point -/
inductive Completes : Pending → List UInt8 → Nat → Prop
  | last {p : Pending} {b : UInt8} (hdue : p.due ≤ 1) (hb : p.Allows b) : Completes p [b] (p.extend b)
  | more {p : Pending} {b : UInt8} {tail : List UInt8} {code : Nat} (hdue : 1 < p.due) (hb : p.Allows b)
    (h : Completes (p.next b) tail code) : Completes p (b :: tail) code

theorem Pending.next_inhabited (p : Pending) (b : UInt8) : (p.next b).low ≤ (p.next b).high := by
  change (0x80 : UInt8) ≤ 0xBF
  decide

theorem Completes.allows (h : Completes p (b :: tail) code) : p.Allows b := by
  cases h with
  | last _ hb => exact hb
  | more _ hb => exact hb

theorem completes_cons_iff (hdue : 1 < p.due) (hb : p.Allows b) :
    Completes p (b :: tail) code ↔ Completes (p.next b) tail code := by
  refine ⟨fun h => ?_, .more hdue hb⟩
  cases h with
  | last hdue' => exact absurd hdue (Nat.not_lt.2 hdue')
  | more _ _ h => exact h

theorem completes_last_iff (hdue : p.due ≤ 1) :
    Completes p tail code ↔ ∃ b, tail = [b] ∧ p.Allows b ∧ p.extend b = code := by
  constructor
  · intro h
    cases h with
    | last _ hb => exact ⟨_, rfl, hb, rfl⟩
    | more hdue' => exact absurd hdue (Nat.not_le.2 hdue')
  · rintro ⟨b, rfl, hb, hcode⟩
    exact hcode ▸ .last hdue hb

theorem completes_more_iff (hdue : 1 < p.due) :
    Completes p tail code ↔ ∃ b rest, tail = b :: rest ∧ p.Allows b ∧ Completes (p.next b) rest code := by
  constructor
  · intro h
    cases h with
    | last hdue' => exact absurd hdue (Nat.not_lt.2 hdue')
    | more _ hb h => exact ⟨_, _, rfl, hb, h⟩
  · rintro ⟨b, rest, rfl, hb, h⟩
    exact .more hdue hb h

theorem decodeFrom_pending_cons (good : Nat) (p : Pending) (b : UInt8) (bytes : List UInt8) :
    decodeFrom good (some p) (b :: bytes) =
      if p.Allows b then
        if p.due ≤ 1 then (decodeFrom (good + p.read + 1) none bytes).map (Char.ofNat (p.extend b) :: ·)
        else decodeFrom good (some (p.next b)) bytes
      else .error ⟨good, some p.read⟩ := by
  rw [decodeFrom]
  simp only [Bool.and_eq_true, decide_eq_true_eq]
  rfl

/-- bytes that complete a character are read as that character -/
theorem decodeFrom_of_completes (h : Completes p tail code) (good : Nat) (rest : List UInt8) :
    decodeFrom good (some p) (tail ++ rest) =
      (decodeFrom (good + p.read + tail.length) none rest).map (Char.ofNat code :: ·) := by
  induction h with
  | last hdue hb =>
    rw [List.cons_append, decodeFrom_pending_cons, if_pos hb, if_pos hdue]
    rfl
  | @more p b tail code hdue hb _ ih =>
    have hread : good + (p.next b).read + tail.length = good + p.read + (b :: tail).length := by
      change good + (p.read + 1) + tail.length = good + p.read + (tail.length + 1)
      omega
    rw [List.cons_append, decodeFrom_pending_cons, if_pos hb, if_neg (Nat.not_le.2 hdue), ih, hread]

theorem exists_completes {p : Pending} (h : p.low ≤ p.high) : ∃ tail code, Completes p tail code := by
  by_cases hdue : p.due ≤ 1
  · exact ⟨_, _, .last hdue ⟨UInt8.le_refl _, h⟩⟩
  · have : (p.next p.low).due < p.due := by
      change p.due - 1 < p.due
      omega
    obtain ⟨tail, code, htail⟩ := exists_completes (p.next_inhabited p.low)
    exact ⟨_, _, .more (Nat.not_le.1 hdue) ⟨UInt8.le_refl _, h⟩ htail⟩
termination_by p.due

/-- the bytes behind the first one complete the character, or there is a fault at it -/
theorem completes_or_fault (h : p.low ≤ p.high) (good : Nat) (bytes : List UInt8) :
    (∃ tail code rest, bytes = tail ++ rest ∧ Completes p tail code) ∨
      ∃ n, decodeFrom good (some p) bytes = .error ⟨good, n⟩ ∧
        (n = none ↔ ∃ more code, Completes p (bytes ++ more) code) := by
  induction bytes generalizing p with
  | nil => exact .inr ⟨none, rfl, iff_of_true rfl (exists_completes h)⟩
  | cons b bytes ih =>
    rw [decodeFrom_pending_cons]
    by_cases hb : p.Allows b
    · rw [if_pos hb]
      by_cases hdue : p.due ≤ 1
      · exact .inl ⟨[b], _, bytes, rfl, .last hdue hb⟩
      · have hdue := Nat.not_le.1 hdue
        rw [if_neg (Nat.not_le.2 hdue)]
        rcases ih (p.next_inhabited b) with ⟨tail, code, rest, rfl, htail⟩ | ⟨n, hfault, hnone⟩
        · exact .inl ⟨b :: tail, code, rest, rfl, .more hdue hb htail⟩
        · exact .inr ⟨n, hfault, hnone.trans (exists₂_congr fun more code => (completes_cons_iff hdue hb).symm)⟩
    · rw [if_neg hb]
      exact .inr ⟨_, rfl, iff_of_false nofun fun ⟨_, _, hcompletes⟩ => hb hcompletes.allows⟩

/-! ## First bytes -/

theorem begin?_two (hlow : 0xC2 ≤ b.toNat) (hhigh : b.toNat ≤ 0xDF) :
    begin? b = some ⟨b.toNat - 0xC0, 1, 1, 0x80, 0xBF⟩ := if_pos ⟨hlow, hhigh⟩

/-- the ranges of the second of three bytes leave out code points that two bytes hold, and surrogates -/
theorem begin?_three (hb : b.toNat = n + 0xE0) (hn : n ≤ 0xF) : ∃ low high, begin? b = some ⟨n, 1, 2, low, high⟩ ∧
    low.toNat = (if n = 0 then 0xA0 else 0x80) ∧ high.toNat = if n = 0xD then 0x9F else 0xBF := by
  unfold begin?
  simp only [hb]
  rw [if_neg (by omega)]
  by_cases h0 : n = 0
  · subst h0
    exact ⟨_, _, rfl, rfl, rfl⟩
  · by_cases hD : n = 0xD
    · subst hD
      exact ⟨_, _, rfl, rfl, rfl⟩
    · rw [if_neg (by omega), if_neg (by omega), if_pos (by omega), if_neg h0, if_neg hD, Nat.add_sub_cancel]
      exact ⟨_, _, rfl, rfl, rfl⟩

/-- the ranges of the second of four bytes leave out code points that three bytes hold, and those beyond the last -/
theorem begin?_four (hb : b.toNat = n + 0xF0) (hn : n ≤ 4) : ∃ low high, begin? b = some ⟨n, 1, 3, low, high⟩ ∧
    low.toNat = (if n = 0 then 0x90 else 0x80) ∧ high.toNat = if n = 4 then 0x8F else 0xBF := by
  unfold begin?
  simp only [hb]
  rw [if_neg (by omega), if_neg (by omega), if_neg (by omega), if_neg (by omega)]
  by_cases h0 : n = 0
  · subst h0
    exact ⟨_, _, rfl, rfl, rfl⟩
  · by_cases h4 : n = 4
    · subst h4
      exact ⟨_, _, rfl, rfl, rfl⟩
    · rw [if_neg (by omega), if_pos (by omega), if_neg h0, if_neg h4, Nat.add_sub_cancel]
      exact ⟨_, _, rfl, rfl, rfl⟩

/-- which bytes begin a character of two, three or four -/
theorem range_of_begin? (hp : begin? b = some p) : (0xC2 ≤ b.toNat ∧ b.toNat ≤ 0xDF) ∨
    (∃ n, b.toNat = n + 0xE0 ∧ n ≤ 0xF) ∨ ∃ n, b.toNat = n + 0xF0 ∧ n ≤ 4 := by
  unfold begin? at hp
  simp only at hp
  split_ifs at hp with h2 hE0 hED h3 hF0 h4 hF4
  · exact .inl h2
  · exact .inr (.inl ⟨b.toNat - 0xE0, by omega, by omega⟩)
  · exact .inr (.inl ⟨b.toNat - 0xE0, by omega, by omega⟩)
  · exact .inr (.inl ⟨b.toNat - 0xE0, by omega, by omega⟩)
  · exact .inr (.inr ⟨b.toNat - 0xF0, by omega, by omega⟩)
  · exact .inr (.inr ⟨b.toNat - 0xF0, by omega, by omega⟩)
  · exact .inr (.inr ⟨b.toNat - 0xF0, by omega, by omega⟩)

/-- a first byte is one byte, and a second one is there for it -/
theorem begin?_eq_some (hp : begin? b = some p) : p.read = 1 ∧ p.low ≤ p.high := by
  rcases range_of_begin? hp with ⟨hlow, hhigh⟩ | ⟨n, hb, hn⟩ | ⟨n, hb, hn⟩
  · rw [begin?_two hlow hhigh] at hp
    obtain rfl := Option.some.inj hp
    exact ⟨rfl, show (0x80 : UInt8) ≤ 0xBF by decide⟩
  · obtain ⟨low, high, heq, hlow, hhigh⟩ := begin?_three hb hn
    rw [heq] at hp
    obtain rfl := Option.some.inj hp
    refine ⟨rfl, UInt8.le_iff_toNat_le.2 ?_⟩
    change low.toNat ≤ high.toNat
    split_ifs at hlow hhigh <;> omega
  · obtain ⟨low, high, heq, hlow, hhigh⟩ := begin?_four hb hn
    rw [heq] at hp
    obtain rfl := Option.some.inj hp
    refine ⟨rfl, UInt8.le_iff_toNat_le.2 ?_⟩
    change low.toNat ≤ high.toNat
    split_ifs at hlow hhigh <;> omega

/-! ## Encodings -/

theorem allows_next : (p.next x).Allows y ↔ 0x80 ≤ y.toNat ∧ y.toNat ≤ 0xBF := Pending.allows_iff

theorem ofNat_eq_of_toNat (h : b.toNat = n) : UInt8.ofNat n = b := by
  rw [← h, UInt8.ofNat_toNat]

theorem toNat_ofNat_of_lt (hn : n < 256) : (UInt8.ofNat n).toNat = n := by
  rw [UInt8.toNat_ofNat', Nat.mod_eq_of_lt hn]

theorem toNat_ofNat_of_valid (h : n.isValidChar) : (Char.ofNat n).val.toNat = n := by
  rw [Char.ofNat, dif_pos h]
  rfl

theorem encoding_of_two (hlow : 0xC2 ≤ b.toNat) (hhigh : b.toNat ≤ 0xDF)
    (h : Completes ⟨b.toNat - 0xC0, 1, 1, 0x80, 0xBF⟩ tail code) :
    String.utf8EncodeChar (Char.ofNat code) = b :: tail := by
  obtain ⟨x, rfl, hx, hcode⟩ := (completes_last_iff (Nat.le_refl 1)).1 h
  have hx : 0x80 ≤ x.toNat ∧ x.toNat ≤ 0xBF := Pending.allows_iff.1 hx
  have hcode : (b.toNat - 0xC0) * 64 + (x.toNat - 0x80) = code := hcode
  have hvalid : code.isValidChar := .inl (by omega)
  unfold String.utf8EncodeChar
  simp only [toNat_ofNat_of_valid hvalid]
  rw [if_neg (by omega), if_pos (by omega), ofNat_eq_of_toNat (b := b) (by omega),
    ofNat_eq_of_toNat (b := x) (by omega)]

theorem encoding_of_three (hb : b.toNat = n + 0xE0) (hn : n ≤ 0xF) (hlow : low.toNat = if n = 0 then 0xA0 else 0x80)
    (hhigh : high.toNat = if n = 0xD then 0x9F else 0xBF) (h : Completes ⟨n, 1, 2, low, high⟩ tail code) :
    String.utf8EncodeChar (Char.ofNat code) = b :: tail := by
  obtain ⟨x, _, rfl, hx, h⟩ := (completes_more_iff (Nat.lt_succ_self 1)).1 h
  obtain ⟨y, rfl, hy, hcode⟩ := (completes_last_iff (Nat.le_refl 1)).1 h
  have hx : low.toNat ≤ x.toNat ∧ x.toNat ≤ high.toNat := Pending.allows_iff.1 hx
  have hy := allows_next.1 hy
  have hcode : (n * 64 + (x.toNat - 0x80)) * 64 + (y.toNat - 0x80) = code := hcode
  have hxn : 0x80 ≤ x.toNat ∧ (n = 0 → 0xA0 ≤ x.toNat) ∧ x.toNat ≤ 0xBF ∧ (n = 0xD → x.toNat ≤ 0x9F) := by
    split_ifs at hlow hhigh <;> omega
  have hvalid : code < 0xD800 ∨ 0xDFFF < code ∧ code < 0x110000 := by omega
  unfold String.utf8EncodeChar
  simp only [toNat_ofNat_of_valid hvalid]
  rw [if_neg (by omega), if_neg (by omega), if_pos (by omega), ofNat_eq_of_toNat (b := b) (by omega),
    ofNat_eq_of_toNat (b := x) (by omega), ofNat_eq_of_toNat (b := y) (by omega)]

theorem encoding_of_four (hb : b.toNat = n + 0xF0) (hn : n ≤ 4) (hlow : low.toNat = if n = 0 then 0x90 else 0x80)
    (hhigh : high.toNat = if n = 4 then 0x8F else 0xBF) (h : Completes ⟨n, 1, 3, low, high⟩ tail code) :
    String.utf8EncodeChar (Char.ofNat code) = b :: tail := by
  obtain ⟨x, _, rfl, hx, h⟩ := (completes_more_iff (Nat.lt_of_lt_of_le (Nat.lt_succ_self 1) (Nat.le_succ 2))).1 h
  obtain ⟨y, _, rfl, hy, h⟩ := (completes_more_iff (Nat.lt_succ_self 1)).1 h
  obtain ⟨z, rfl, hz, hcode⟩ := (completes_last_iff (Nat.le_refl 1)).1 h
  have hx : low.toNat ≤ x.toNat ∧ x.toNat ≤ high.toNat := Pending.allows_iff.1 hx
  have hy := allows_next.1 hy
  have hz := allows_next.1 hz
  have hcode : ((n * 64 + (x.toNat - 0x80)) * 64 + (y.toNat - 0x80)) * 64 + (z.toNat - 0x80) = code := hcode
  have hxn : 0x80 ≤ x.toNat ∧ (n = 0 → 0x90 ≤ x.toNat) ∧ x.toNat ≤ 0xBF ∧ (n = 4 → x.toNat ≤ 0x8F) := by
    split_ifs at hlow hhigh <;> omega
  have hvalid : code < 0xD800 ∨ 0xDFFF < code ∧ code < 0x110000 := by omega
  unfold String.utf8EncodeChar
  simp only [toNat_ofNat_of_valid hvalid]
  rw [if_neg (by omega), if_neg (by omega), if_neg (by omega), ofNat_eq_of_toNat (b := b) (by omega),
    ofNat_eq_of_toNat (b := x) (by omega), ofNat_eq_of_toNat (b := y) (by omega), ofNat_eq_of_toNat (b := z) (by omega)]

/-- **A first byte and the bytes that complete it are the encoding of the character.** -/
theorem encoding_of_completes (hp : begin? b = some p) (h : Completes p tail code) :
    String.utf8EncodeChar (Char.ofNat code) = b :: tail := by
  rcases range_of_begin? hp with ⟨hlow, hhigh⟩ | ⟨n, hb, hn⟩ | ⟨n, hb, hn⟩
  · rw [begin?_two hlow hhigh] at hp
    obtain rfl := Option.some.inj hp
    exact encoding_of_two hlow hhigh h
  · obtain ⟨low, high, heq, hlow, hhigh⟩ := begin?_three hb hn
    rw [heq] at hp
    obtain rfl := Option.some.inj hp
    exact encoding_of_three hb hn hlow hhigh h
  · obtain ⟨low, high, heq, hlow, hhigh⟩ := begin?_four hb hn
    rw [heq] at hp
    obtain rfl := Option.some.inj hp
    exact encoding_of_four hb hn hlow hhigh h

theorem completes_of_two (hb : b.toNat = v / 64 + 0xC0) (hx : x.toNat = v % 64 + 0x80) (hlow : 0x80 ≤ v)
    (hhigh : v ≤ 0x7FF) : ∃ p, begin? b = some p ∧ Completes p [x] v := by
  refine ⟨_, begin?_two (by omega) (by omega), (completes_last_iff (Nat.le_refl 1)).2
    ⟨x, rfl, Pending.allows_iff.2 ⟨?_, ?_⟩, ?_⟩⟩
  · change 0x80 ≤ x.toNat
    omega
  · change x.toNat ≤ 0xBF
    omega
  · change (b.toNat - 0xC0) * 64 + (x.toNat - 0x80) = v
    omega

theorem completes_of_three (hb : b.toNat = v / 4096 + 0xE0) (hx : x.toNat = v / 64 % 64 + 0x80)
    (hy : y.toNat = v % 64 + 0x80) (hsmall : 0x800 ≤ v) (hlarge : v ≤ 0xFFFF) (hvalid : v < 0xD800 ∨ 0xDFFF < v) :
    ∃ p, begin? b = some p ∧ Completes p [x, y] v := by
  obtain ⟨low, high, hp, hlow, hhigh⟩ := begin?_three hb (by omega)
  refine ⟨_, hp, (completes_more_iff (Nat.lt_succ_self 1)).2 ⟨x, _, rfl, Pending.allows_iff.2 ⟨?_, ?_⟩,
    (completes_last_iff (Nat.le_refl 1)).2 ⟨y, rfl, allows_next.2 (by omega), ?_⟩⟩⟩
  · change low.toNat ≤ x.toNat
    split_ifs at hlow <;> omega
  · change x.toNat ≤ high.toNat
    split_ifs at hhigh <;> omega
  · change (v / 4096 * 64 + (x.toNat - 0x80)) * 64 + (y.toNat - 0x80) = v
    omega

theorem completes_of_four (hb : b.toNat = v / 262144 + 0xF0) (hx : x.toNat = v / 4096 % 64 + 0x80)
    (hy : y.toNat = v / 64 % 64 + 0x80) (hz : z.toNat = v % 64 + 0x80) (hsmall : 0x10000 ≤ v) (hlarge : v < 0x110000) :
    ∃ p, begin? b = some p ∧ Completes p [x, y, z] v := by
  obtain ⟨low, high, hp, hlow, hhigh⟩ := begin?_four hb (by omega)
  refine ⟨_, hp, (completes_more_iff (Nat.lt_of_lt_of_le (Nat.lt_succ_self 1) (Nat.le_succ 2))).2
    ⟨x, _, rfl, Pending.allows_iff.2 ⟨?_, ?_⟩, (completes_more_iff (Nat.lt_succ_self 1)).2
      ⟨y, _, rfl, allows_next.2 (by omega), (completes_last_iff (Nat.le_refl 1)).2
        ⟨z, rfl, allows_next.2 (by omega), ?_⟩⟩⟩⟩
  · change low.toNat ≤ x.toNat
    split_ifs at hlow <;> omega
  · change x.toNat ≤ high.toNat
    split_ifs at hhigh <;> omega
  · change ((v / 262144 * 64 + (x.toNat - 0x80)) * 64 + (y.toNat - 0x80)) * 64 + (z.toNat - 0x80) = v
    omega

/-- **Every character beyond ASCII is encoded by a first byte and bytes that complete it.** -/
theorem completes_of_encoding (hc : 0x80 ≤ c.val.toNat) : ∃ b p tail,
    String.utf8EncodeChar c = b :: tail ∧ 0x80 ≤ b.toNat ∧ begin? b = some p ∧ Completes p tail c.val.toNat := by
  have hvalid : c.val.toNat < 0xD800 ∨ 0xDFFF < c.val.toNat ∧ c.val.toNat < 0x110000 := c.valid
  unfold String.utf8EncodeChar
  simp only
  generalize c.val.toNat = v at hc hvalid
  rw [if_neg (by omega)]
  split_ifs with h2 h3
  · have hb : (UInt8.ofNat (v / 64 % 32 + 0xC0)).toNat = v / 64 + 0xC0 := by
      rw [toNat_ofNat_of_lt (by omega), Nat.mod_eq_of_lt (by omega)]
    obtain ⟨p, hp, h⟩ := completes_of_two hb (toNat_ofNat_of_lt (by omega)) (by omega) h2
    exact ⟨_, p, _, rfl, by omega, hp, h⟩
  · have hb : (UInt8.ofNat (v / 4096 % 16 + 0xE0)).toNat = v / 4096 + 0xE0 := by
      rw [toNat_ofNat_of_lt (by omega), Nat.mod_eq_of_lt (by omega)]
    obtain ⟨p, hp, h⟩ := completes_of_three hb (toNat_ofNat_of_lt (by omega)) (toNat_ofNat_of_lt (by omega))
      (by omega) h3 (by omega)
    exact ⟨_, p, _, rfl, by omega, hp, h⟩
  · have hb : (UInt8.ofNat (v / 262144 % 8 + 0xF0)).toNat = v / 262144 + 0xF0 := by
      rw [toNat_ofNat_of_lt (by omega), Nat.mod_eq_of_lt (by omega)]
    obtain ⟨p, hp, h⟩ := completes_of_four hb (toNat_ofNat_of_lt (by omega)) (toNat_ofNat_of_lt (by omega))
      (toNat_ofNat_of_lt (by omega)) (by omega) (by omega)
    exact ⟨_, p, _, rfl, by omega, hp, h⟩

/-! ## Decoding -/

theorem utf8EncodeChar_of_lt (hc : c.val.toNat < 0x80) : String.utf8EncodeChar c = [UInt8.ofNat c.val.toNat] := by
  unfold String.utf8EncodeChar
  simp only
  rw [if_pos (by omega)]

/-- a character with a first byte beyond ASCII is encoded by what completes that byte -/
theorem completes_of_encoding_cons (hb : ¬ b < 0x80) (h : String.utf8EncodeChar c = b :: tail) :
    ∃ p, begin? b = some p ∧ Completes p tail c.val.toNat := by
  by_cases hc : c.val.toNat < 0x80
  · rw [utf8EncodeChar_of_lt hc] at h
    have hbc : b = UInt8.ofNat c.val.toNat := (List.cons.inj h).1.symm
    rw [hbc, UInt8.lt_iff_toNat_lt, toNat_ofNat_of_lt (by omega)] at hb
    exact absurd hc hb
  · obtain ⟨b', p, tail', henc, -, hp, htail⟩ := completes_of_encoding (Nat.not_lt.1 hc)
    rw [henc] at h
    obtain ⟨rfl, rfl⟩ := List.cons.inj h
    exact ⟨p, hp, htail⟩

theorem decodeFrom_cons_of_lt (hb : b < 0x80) (good : Nat) (rest : List UInt8) :
    decodeFrom good none (b :: rest) = (decodeFrom (good + 1) none rest).map (Char.ofNat b.toNat :: ·) := by
  rw [decodeFrom, if_pos hb]

theorem decodeFrom_cons_of_begin? (hb : ¬ b < 0x80) (hp : begin? b = some p) (good : Nat) (rest : List UInt8) :
    decodeFrom good none (b :: rest) = decodeFrom good (some p) rest := by
  rw [decodeFrom, if_neg hb]
  simp only [hp]

/-- an encoded character is read as that character, whatever stands behind it -/
theorem decodeFrom_encoding (c : Char) (good : Nat) (rest : List UInt8) :
    decodeFrom good none (String.utf8EncodeChar c ++ rest) =
      (decodeFrom (good + (String.utf8EncodeChar c).length) none rest).map (c :: ·) := by
  by_cases hc : c.val.toNat < 0x80
  · have hb : (UInt8.ofNat c.val.toNat).toNat = c.val.toNat := toNat_ofNat_of_lt (by omega)
    have hchar : Char.ofNat c.val.toNat = c := Char.ofNat_toNat c
    rw [utf8EncodeChar_of_lt hc, List.singleton_append, decodeFrom_cons_of_lt, hb, hchar]
    · rfl
    · rw [UInt8.lt_iff_toNat_lt, hb]
      exact hc
  · obtain ⟨b, p, tail, henc, hb, hp, h⟩ := completes_of_encoding (Nat.not_lt.1 hc)
    have hread : good + p.read + tail.length = good + (b :: tail).length := by
      rw [(begin?_eq_some hp).1, List.length_cons]
      omega
    have hchar : Char.ofNat c.val.toNat = c := Char.ofNat_toNat c
    have hb : ¬ b < 0x80 := by
      rw [UInt8.lt_iff_toNat_lt]
      exact Nat.not_lt.2 hb
    rw [henc, List.cons_append, decodeFrom_cons_of_begin? hb hp, decodeFrom_of_completes h, hread, hchar]

theorem decodeFrom_encode (cs : List Char) (good : Nat) (rest : List UInt8) :
    decodeFrom good none (encode cs ++ rest) =
      (decodeFrom (good + (encode cs).length) none rest).map (cs ++ ·) := by
  induction cs generalizing good with
  | nil =>
    change decodeFrom good none rest = (decodeFrom good none rest).map id
    cases decodeFrom good none rest <;> rfl
  | cons c cs ih =>
    rw [encode_cons, List.append_assoc, decodeFrom_encoding, ih, List.length_append, Nat.add_assoc]
    cases decodeFrom (good + ((String.utf8EncodeChar c).length + (encode cs).length)) none rest <;> rfl

/-- **The decoder stops at bytes that begin with no character**, and says whether more bytes would make one of them. -/
theorem decodeFrom_of_stuck (h : Stuck bytes) (good : Nat) : ∃ n, decodeFrom good none bytes = .error ⟨good, n⟩ ∧
    (n = none ↔ ∃ more c, bytes ++ more = String.utf8EncodeChar c) := by
  obtain ⟨b, bytes, rfl⟩ := List.exists_cons_of_ne_nil h.1
  have hb : ¬ b < 0x80 := by
    intro hb
    have hb' : b.toNat < 0x80 := UInt8.lt_iff_toNat_lt.1 hb
    have hval : (Char.ofNat b.toNat).val.toNat = b.toNat := toNat_ofNat_of_valid (.inl (by omega))
    refine h.2 (Char.ofNat b.toNat) bytes ?_
    rw [utf8EncodeChar_of_lt (by omega), hval, UInt8.ofNat_toNat, List.singleton_append]
  cases hp : begin? b with
  | none =>
    refine ⟨some 1, ?_, iff_of_false nofun ?_⟩
    · rw [decodeFrom, if_neg hb]
      simp only [hp]
    · rintro ⟨more, c, hc⟩
      obtain ⟨p, hp', -⟩ := completes_of_encoding_cons hb hc.symm
      rw [hp] at hp'
      cases hp'
  | some p =>
    rw [decodeFrom_cons_of_begin? hb hp]
    rcases completes_or_fault (begin?_eq_some hp).2 good bytes with
      ⟨tail, code, rest, rfl, hcompletes⟩ | ⟨n, hfault, hnone⟩
    · exact absurd (by rw [encoding_of_completes hp hcompletes, List.cons_append]) (h.2 (Char.ofNat code) rest)
    · refine ⟨n, hfault, hnone.trans (exists_congr fun more => ⟨?_, ?_⟩)⟩
      · rintro ⟨code, hcompletes⟩
        exact ⟨Char.ofNat code, (encoding_of_completes hp hcompletes).symm⟩
      · rintro ⟨c, hc⟩
        obtain ⟨p', hp', hcompletes⟩ := completes_of_encoding_cons hb hc.symm
        rw [hp] at hp'
        obtain rfl := Option.some.inj hp'
        exact ⟨_, hcompletes⟩

theorem encoding_ne_nil (c : Char) : String.utf8EncodeChar c ≠ [] := by
  rw [← List.length_pos_iff, String.length_utf8EncodeChar]
  exact c.utf8Size_pos

/-- what the decoder does with any bytes: it reads characters to the end, or stops behind them -/
theorem decodeFrom_cases (good : Nat) (bytes : List UInt8) : ∃ cs rest, bytes = encode cs ++ rest ∧
    ((rest = [] ∧ decodeFrom good none bytes = .ok cs) ∨ Stuck rest ∧
      ∃ n, decodeFrom good none bytes = .error ⟨good + (encode cs).length, n⟩ ∧
        (n = none ↔ ∃ more c, rest ++ more = String.utf8EncodeChar c)) := by
  induction hlen : bytes.length using Nat.strongRecOn generalizing good bytes with
  | _ len ih =>
    by_cases hnil : bytes = []
    · subst hnil
      exact ⟨[], [], rfl, .inl ⟨rfl, rfl⟩⟩
    by_cases hchar : ∃ c rest, bytes = String.utf8EncodeChar c ++ rest
    · obtain ⟨c, rest, rfl⟩ := hchar
      have hlt : rest.length < len := by
        have := List.length_pos_iff.2 (encoding_ne_nil c)
        rw [List.length_append] at hlen
        omega
      obtain ⟨cs, rest, rfl, h⟩ := ih _ hlt (good + (String.utf8EncodeChar c).length) rest rfl
      refine ⟨c :: cs, rest, by rw [encode_cons, List.append_assoc], ?_⟩
      rw [decodeFrom_encoding]
      rcases h with ⟨rfl, hok⟩ | ⟨hstuck, n, herr, hnone⟩
      · exact .inl ⟨rfl, by rw [hok]; rfl⟩
      · refine .inr ⟨hstuck, n, ?_, hnone⟩
        rw [herr, encode_cons, List.length_append, ← Nat.add_assoc]
        rfl
    · have hstuck : Stuck bytes := ⟨hnil, fun c rest heq => hchar ⟨c, rest, heq⟩⟩
      exact ⟨[], bytes, rfl, .inr ⟨hstuck, decodeFrom_of_stuck hstuck good⟩⟩

/-! ## Texts and faults -/

theorem decodeFrom_eq_ok_iff : decodeFrom good none bytes = .ok cs ↔ encode cs = bytes := by
  constructor
  · intro hok
    obtain ⟨ds, rest, rfl, ⟨rfl, hds⟩ | ⟨-, n, herr, -⟩⟩ := decodeFrom_cases good bytes
    · rw [hds] at hok
      obtain rfl := Except.ok.inj hok
      rw [List.append_nil]
    · rw [herr] at hok
      cases hok
  · rintro rfl
    have h := decodeFrom_encode cs good []
    rw [List.append_nil] at h
    rw [h]
    change Except.ok (cs ++ []) = _
    rw [List.append_nil]

/-- **The characters that are decoded are those whose encodings the bytes are.** -/
theorem decode_eq_ok_iff : decode bytes = .ok cs ↔ encode cs = bytes := decodeFrom_eq_ok_iff

theorem wellFormed_iff : WellFormed bytes ↔ ∃ cs, decode bytes = .ok cs :=
  exists_congr fun _ => decode_eq_ok_iff.symm

instance (bytes : List UInt8) : Decidable (WellFormed bytes) :=
  match h : decode bytes with
  | .ok cs => .isTrue (wellFormed_iff.2 ⟨cs, h⟩)
  | .error _ => .isFalse fun hwf => by
    obtain ⟨cs, hcs⟩ := wellFormed_iff.1 hwf
    rw [h] at hcs
    cases hcs

/-- well-formed bytes in front of others make these no better and no worse -/
theorem wellFormed_encode_append_iff : WellFormed (encode cs ++ rest) ↔ WellFormed rest := by
  constructor
  · intro h
    obtain ⟨ds, hds⟩ := wellFormed_iff.1 h
    rw [decode, decodeFrom_encode] at hds
    cases hrest : decodeFrom (0 + (encode cs).length) none rest with
    | ok es => exact ⟨es, decodeFrom_eq_ok_iff.1 hrest⟩
    | error f =>
      rw [hrest] at hds
      cases hds
  · rintro ⟨ds, rfl⟩
    exact ⟨cs ++ ds, List.flatMap_append⟩

/-- bytes that begin with no character do not become well formed by a cut, other than by one that takes them all -/
theorem Stuck.eq_nil_of_take (h : Stuck rest) (hwf : WellFormed (rest.take n)) : rest.take n = [] := by
  obtain ⟨_ | ⟨c, cs⟩, hcs⟩ := hwf
  · exact hcs.symm
  · rw [encode_cons] at hcs
    refine absurd ?_ (h.2 c (encode cs ++ rest.drop n))
    rw [← List.append_assoc, hcs, List.take_append_drop]

/-- nor by more bytes, if these do not make a character of them -/
theorem Stuck.wellFormed_append_iff (h : Stuck rest) :
    (∃ more, WellFormed (rest ++ more)) ↔ ∃ more c, rest ++ more = String.utf8EncodeChar c := by
  constructor
  · rintro ⟨more, _ | ⟨c, cs⟩, hcs⟩
    · exact absurd (List.append_eq_nil_iff.1 hcs.symm).1 h.1
    · rw [encode_cons] at hcs
      rcases List.append_eq_append_iff.1 hcs with ⟨tail, hrest, -⟩ | ⟨more, hc, -⟩
      · exact absurd hrest (h.2 c tail)
      · exact ⟨more, c, hc.symm⟩
  · rintro ⟨more, c, hc⟩
    exact ⟨more, [c], by rw [hc, encode_cons]; exact List.append_nil _⟩

/-- **A fault stands where the longest well-formed first part ends**, and tells whether bytes are missing or wrong. -/
theorem faultAt_of_decode (h : decode bytes = .error f) : FaultAt bytes f := by
  obtain ⟨cs, rest, rfl, ⟨rfl, hok⟩ | ⟨hstuck, n, herr, hnone⟩⟩ := decodeFrom_cases 0 bytes
  · rw [decode, hok] at h
    cases h
  rw [decode, herr, Nat.zero_add] at h
  obtain rfl := Except.error.inj h
  refine ⟨⟨⟨?_, cs, List.take_left.symm⟩, fun n hn => ?_⟩, ?_⟩
  · change (encode cs).length ≤ (encode cs ++ rest).length
    rw [List.length_append]
    omega
  · obtain ⟨hle, hwf⟩ := hn
    rw [List.take_append, List.length_append] at *
    change n ≤ (encode cs).length
    by_contra hlt
    have hlt := Nat.not_le.1 hlt
    rw [List.take_of_length_le (by omega), wellFormed_encode_append_iff] at hwf
    have hnil := congrArg List.length (hstuck.eq_nil_of_take hwf)
    rw [List.length_take, List.length_nil] at hnil
    omega
  · simp only [List.append_assoc, wellFormed_encode_append_iff]
    exact hnone.trans hstuck.wellFormed_append_iff.symm

/-- a surrogate is wrong from its second byte on -/
example : decode [0x61, 0xED, 0xA0, 0x80] = .error ⟨1, some 1⟩ := rfl

end Xdr.Text.Utf8
