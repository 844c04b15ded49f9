/-
# Domain.Texts -- the ids as they are written

`SignalId` and `EventId` keep an id as its fields, and a `cloid` is derived from, and a
dedup set made of, the texts.  This module writes the texts out and reads them back.

* `SignalId.parse` splits from the right, so a strategy's name may hold colons: it
  gives back every id that `render` wrote for a symbol without one, and the `seq` of
  every id whatever its symbol is (`rendered_parses`).  What it accepts is a
  strategy, a symbol without a colon and a number (`parsed_wellFormed`).
* Two event ids of well-formed parts have one text only if they are one id
  (`EventId.render_injOn`), so a dedup set of texts answers as the set of ids does,
  and the texts that start as an order's fills do are its fills (`texts_dedup`).

Python's `int` reads signs, blanks, single underscores and the digits of every script.
The interpreter's limit on the length of a number is left out.
-/
import Tickwright.Domain.Vocabulary
import Tickwright.Theory.Split
import Mathlib.Data.Finset.Card
import Mathlib.Data.Finset.Image

namespace Tickwright.Domain

open Tickwright.Theory

set_option autoImplicit false

abbrev Text := List Char

/-! ## `int` -/

/-- Where each script's run of ten decimal digits begins (Unicode 15.1). -/
def zeros : List ℕ :=
  [0x30, 0x660, 0x6f0, 0x7c0, 0x966, 0x9e6, 0xa66, 0xae6, 0xb66, 0xbe6, 0xc66, 0xce6, 0xd66,
   0xde6, 0xe50, 0xed0, 0xf20, 0x1040, 0x1090, 0x17e0, 0x1810, 0x1946, 0x19d0, 0x1a80, 0x1a90,
   0x1b50, 0x1bb0, 0x1c40, 0x1c50, 0xa620, 0xa8d0, 0xa900, 0xa9d0, 0xa9f0, 0xaa50, 0xabf0,
   0xff10, 0x104a0, 0x10d30, 0x11066, 0x110f0, 0x11136, 0x111d0, 0x112f0, 0x11450, 0x114d0,
   0x11650, 0x116c0, 0x11730, 0x118e0, 0x11950, 0x11c50, 0x11d50, 0x11da0, 0x11f50, 0x16a60,
   0x16ac0, 0x16b50, 0x1d7ce, 0x1d7d8, 0x1d7e2, 0x1d7ec, 0x1d7f6, 0x1e140, 0x1e2f0, 0x1e4f0,
   0x1e950, 0x1fbf0]

/-- The value of a decimal digit, of any script. -/
def decimalValue (c : Char) : Option ℕ :=
  (zeros.find? fun start => decide (start ≤ c.toNat ∧ c.toNat < start + 10)).map (c.toNat - ·)

/-- `text.isdecimal()`. -/
def isdecimal (text : Text) : Bool := !text.isEmpty && text.all fun c => (decimalValue c).isSome

/-- The digits behind the first, single underscores between them. -/
def moreDigits (read : ℕ) : Text → Option ℕ
  | [] => some read
  | '_' :: c :: rest => (decimalValue c).bind fun digit => moreDigits (10 * read + digit) rest
  | c :: rest => (decimalValue c).bind fun digit => moreDigits (10 * read + digit) rest

def unsigned : Text → Option ℕ
  | [] => none
  | c :: rest => (decimalValue c).bind fun digit => moreDigits digit rest

def signed : Text → Option ℤ
  | '-' :: rest => (unsigned rest).map fun magnitude => -magnitude
  | '+' :: rest => (unsigned rest).map fun magnitude => magnitude
  | text => (unsigned text).map fun magnitude => magnitude

/-- A blank of any script, as `int` strips it. -/
def isBlank (c : Char) : Bool :=
  decide (c.toNat ∈ [0x20, 0x85, 0xa0, 0x1680, 0x2028, 0x2029, 0x202f, 0x205f, 0x3000] ∨
    (0x9 ≤ c.toNat ∧ c.toNat ≤ 0xd) ∨ (0x2000 ≤ c.toNat ∧ c.toNat ≤ 0x200a))

/-- `int(text)`: `none` is its `ValueError`. -/
def int (text : Text) : Option ℤ :=
  signed ((text.dropWhile isBlank).reverse.dropWhile isBlank).reverse

theorem decimalValue_digit {c : Char} (digit : c.isDigit = true) :
    decimalValue c = some (c.toNat - '0'.toNat) := by
  obtain ⟨low, high⟩ := Char.isDigit_iff_toNat.mp digit
  have first : zeros = '0'.toNat :: zeros.tail := rfl
  have here : '0'.toNat ≤ c.toNat ∧ c.toNat < '0'.toNat + 10 := ⟨low, Nat.lt_succ_of_le high⟩
  rw [decimalValue, first, List.find?_cons_of_pos, Option.map_some]
  exact decide_eq_true here

theorem moreDigits_digits {read : ℕ} {text : Text}
    (digits : ∀ c ∈ text, c.isDigit = true) :
    moreDigits read text = some (Nat.ofDigitChars 10 text read) := by
  induction text generalizing read with
  | nil => simp [moreDigits]
  | cons c rest ih =>
      have digit := digits c List.mem_cons_self
      have later : ∀ other ∈ rest, other.isDigit = true :=
        fun other member => digits other (List.mem_cons_of_mem _ member)
      have plain : c ≠ '_' := fun same => by simp [same] at digit
      rw [moreDigits, decimalValue_digit digit, Option.bind_some, ih later,
        Nat.ofDigitChars_cons]
      exact fun _ _ underscore => absurd underscore plain

theorem unsigned_toDigits (n : ℕ) : unsigned (Nat.toDigits 10 n) = some n := by
  have digits : ∀ c ∈ Nat.toDigits 10 n, c.isDigit = true :=
    fun c member => isDigit_of_mem_toDigits member
  have value : Nat.ofDigitChars 10 (Nat.toDigits 10 n) 0 = n := Nat.ofDigitChars_ten_toDigits
  cases written : Nat.toDigits 10 n with
  | nil => exact absurd written Nat.toDigits_ne_nil
  | cons c rest =>
      rw [written] at digits value
      rw [unsigned, decimalValue_digit (digits c List.mem_cons_self), Option.bind_some,
        moreDigits_digits fun other member => digits other (List.mem_cons_of_mem _ member)]
      rw [Nat.ofDigitChars_cons, Nat.mul_zero, Nat.zero_add] at value
      rw [value]

theorem isdecimal_toDigits (n : ℕ) : isdecimal (Nat.toDigits 10 n) = true := by
  rw [isdecimal, Bool.and_eq_true, Bool.not_eq_true', List.isEmpty_eq_false_iff, List.all_eq_true]
  refine ⟨Nat.toDigits_ne_nil, fun c member => ?_⟩
  rw [decimalValue_digit (isDigit_of_mem_toDigits member), Option.isSome_some]

theorem not_isBlank_decimal {n : ℤ} : ∀ c ∈ decimal n, isBlank c = false := by
  intro c member
  by_contra blank
  simp only [Bool.not_eq_false, isBlank, decide_eq_true_eq, List.mem_cons, List.not_mem_nil,
    or_false] at blank
  have digit : c.isDigit = false := by
    by_contra digit
    obtain ⟨low, high⟩ := Char.isDigit_iff_toNat.mp ((Bool.not_eq_false _).mp digit)
    have zero : '0'.toNat = 48 := rfl
    have nine : '9'.toNat = 57 := rfl
    omega
  have sign : c ≠ '-' := by
    rintro rfl
    have dash : '-'.toNat = 45 := rfl
    omega
  exact not_mem_decimal digit sign member

theorem dropWhile_isBlank {text : Text} (plain : ∀ c ∈ text, isBlank c = false) :
    text.dropWhile isBlank = text := by
  cases text with
  | nil => rfl
  | cons c rest => rw [List.dropWhile_cons_of_neg (by simp [plain c List.mem_cons_self])]

/-- **`int` reads what was written in base ten.** -/
theorem int_decimal (n : ℤ) : int (decimal n) = some n := by
  have plain : ∀ c ∈ decimal n, isBlank c = false := not_isBlank_decimal
  rw [int, dropWhile_isBlank plain,
    dropWhile_isBlank fun c member => plain c (List.mem_reverse.mp member), List.reverse_reverse]
  cases n with
  | negSucc n =>
      simp only [decimal, signed, unsigned_toDigits]
      rfl
  | ofNat n =>
      have unsignedly : decimal (Int.ofNat n) = Nat.toDigits 10 n := rfl
      rw [unsignedly]
      have read := unsigned_toDigits n
      cases written : Nat.toDigits 10 n with
      | nil => exact absurd written Nat.toDigits_ne_nil
      | cons c rest =>
          have digit := isDigit_of_mem_toDigits (written ▸ List.mem_cons_self)
          rw [written] at read
          rw [signed]
          · rw [read]
            rfl
          · rintro _ ⟨⟩
            cases digit
          · rintro _ ⟨⟩
            cases digit

/-- A blank and two digits of other scripts, with an underscore between them. -/
example : int "\u2007\u0661_\u0967".toList = some 11 := by decide

/-! ## Signal ids -/

/-- What a `signal_id` text holds: any strategy text, and any integer. -/
structure SignalFields where
  strategyId : String
  symbol : Symbol
  seq : ℤ
deriving DecidableEq

namespace SignalFields

/-- `{strategy_id}:{symbol}:{seq}`. -/
def render (id : SignalFields) : Text :=
  id.strategyId.toList ++ ':' :: (id.symbol.toList ++ ':' :: decimal id.seq)

/-- `rsplit(":", 2)`, and `int` of the last part.  `none` is a `ValueError`: fewer than
three parts, or no number. -/
def parse (signalId : Text) : Option SignalFields :=
  match rsplit ':' 2 signalId with
  | [strategyId, symbol, seq] =>
      (int seq).map fun seq => ⟨String.ofList strategyId, String.ofList symbol, seq⟩
  | _ => none

theorem parse_joined {strategyId symbol seq : Text} (outSymbol : ':' ∉ symbol)
    (outSeq : ':' ∉ seq) :
    parse (strategyId ++ ':' :: (symbol ++ ':' :: seq)) =
      (int seq).map fun seq => ⟨String.ofList strategyId, String.ofList symbol, seq⟩ := by
  unfold parse
  rw [rsplit_two.mpr ⟨rfl, outSymbol, outSeq⟩]

theorem colon_not_mem_decimal {n : ℤ} : ':' ∉ decimal n :=
  not_mem_decimal (by decide) (by decide)

theorem parse_render {id : SignalFields} (plain : ':' ∉ id.symbol.toList) :
    parse id.render = some id := by
  rw [render, parse_joined plain colon_not_mem_decimal, int_decimal]
  simp only [Option.map_some, String.ofList_toList]

/-- What is accepted is a strategy, a symbol without a colon and a number. -/
theorem parsed_wellFormed {signalId : Text} {id : SignalFields} (parsed : parse signalId = some id) :
    ':' ∉ id.symbol.toList ∧ ∃ seq, int seq = some id.seq ∧ ':' ∉ seq ∧
      signalId = id.strategyId.toList ++ ':' :: (id.symbol.toList ++ ':' :: seq) := by
  unfold parse at parsed
  split at parsed
  · rename_i strategyId symbol seq split
    obtain ⟨whole, outSymbol, outSeq⟩ := rsplit_two.mp split
    obtain ⟨number, read, rfl⟩ := Option.map_eq_some_iff.mp parsed
    simp only [String.toList_ofList]
    exact ⟨outSymbol, seq, read, outSeq, whole⟩
  · cases parsed

/-- A symbol's own colon is read as the one in front of the symbol. -/
theorem parse_render_seq (id : SignalFields) :
    ∃ read, parse id.render = some read ∧ read.seq = id.seq := by
  by_cases plain : ':' ∉ id.symbol.toList
  · exact ⟨id, parse_render plain, rfl⟩
  · obtain ⟨front, back, cut⟩ : ∃ front back, cutLast ':' id.symbol.toList = some (front, back) := by
      cases cut : cutLast ':' id.symbol.toList with
      | none => exact absurd (cutLast_eq_none.mp cut) plain
      | some parts => exact ⟨parts.1, parts.2, rfl⟩
    obtain ⟨symbol, out⟩ := cutLast_eq_some.mp cut
    have text : id.render =
        (id.strategyId.toList ++ ':' :: front) ++ ':' :: (back ++ ':' :: decimal id.seq) := by
      rw [render, symbol]
      simp only [List.append_assoc, List.cons_append]
    rw [text, parse_joined out colon_not_mem_decimal, int_decimal]
    exact ⟨_, rfl, rfl⟩

/-- **A text read back is the id it was written from exactly when the symbol has no
colon, its `seq` is always the one written, and what is accepted is well formed: written
again, it is read as the same id.** -/
theorem rendered_parses :
    (∀ id : SignalFields, ∃ read, parse id.render = some read ∧ read.seq = id.seq ∧
      (read = id ↔ ':' ∉ id.symbol.toList)) ∧
    ∀ (signalId : Text) (id : SignalFields), parse signalId = some id →
      parse id.render = some id ∧ ∃ seq, int seq = some id.seq ∧ ':' ∉ seq ∧
        signalId = id.strategyId.toList ++ ':' :: (id.symbol.toList ++ ':' :: seq) := by
  constructor
  · intro id
    obtain ⟨read, parsed, seq⟩ := parse_render_seq id
    refine ⟨read, parsed, seq, fun same => same ▸ (parsed_wellFormed parsed).1, fun plain => ?_⟩
    rw [parse_render plain] at parsed
    cases parsed
    rfl
  · intro signalId id parsed
    obtain ⟨plain, written⟩ := parsed_wellFormed parsed
    exact ⟨parse_render plain, written⟩

/-- Two ids of one text, where a symbol may hold a colon. -/
example : render ⟨"a", "b:c", 1⟩ = render ⟨"a:b", "c", 1⟩ := by decide

end SignalFields

namespace SignalId

def fields (id : SignalId) : SignalFields := ⟨id.strategyId.id, id.symbol, id.seq⟩

theorem fields_injective : Function.Injective fields := by
  rintro ⟨⟨strategy, _⟩, symbol, seq⟩ ⟨⟨strategy', _⟩, symbol', seq'⟩ same
  simp only [fields, SignalFields.mk.injEq, Int.natCast_inj] at same
  obtain ⟨rfl, rfl, rfl⟩ := same
  rfl

/-- Ids of symbols without a colon are told apart by their texts. -/
theorem render_injOn :
    Set.InjOn (fun id : SignalId => id.fields.render) {id | ':' ∉ id.symbol.toList} := by
  intro a plainA b plainB same
  have parsedA : SignalFields.parse a.fields.render = some a.fields :=
    SignalFields.parse_render plainA
  have parsedB : SignalFields.parse b.fields.render = some b.fields :=
    SignalFields.parse_render plainB
  rw [show a.fields.render = b.fields.render from same, parsedB] at parsedA
  exact (fields_injective (Option.some.inj parsedA)).symm

end SignalId

/-! ## Event ids -/

namespace EventId

/-- What is written in front of the first colon. -/
def owner : EventId → Text
  | state cloid _ | fill cloid _ | piece cloid _ _ => cloid.toList
  | reconcile .. => "reconcile".toList
  | leftover .. => "leftover".toList

/-- And behind it. -/
def rest : EventId → Text
  | state _ entered => entered.value.toList
  | fill _ tradeId => "fill".toList ++ ':' :: tradeId.toList
  | piece _ tradeId owner => "fill".toList ++ ':' :: (tradeId.toList ++ ':' :: owner.toList)
  | reconcile symbol tsNs => symbol.toList ++ ':' :: decimal tsNs
  | leftover symbol tsNs owner => symbol.toList ++ ':' :: (decimal tsNs ++ ':' :: owner.toList)

/-- The id as the source writes it. -/
def render (id : EventId) : Text := id.owner ++ ':' :: id.rest

/-- No part but the last holds a colon, and a `cloid` is none of the two words. -/
def WellFormed : EventId → Prop
  | state cloid _ => CloidText cloid
  | fill cloid tradeId => CloidText cloid ∧ ':' ∉ tradeId.toList
  | piece cloid tradeId _ => CloidText cloid ∧ ':' ∉ tradeId.toList
  | reconcile .. => True
  | leftover symbol _ _ => ':' ∉ symbol.toList
where
  /-- `0x` and a hex digest. -/
  CloidText (cloid : Cloid) : Prop :=
    ':' ∉ cloid.toList ∧ cloid ≠ "reconcile" ∧ cloid ≠ "leftover"

theorem colon_not_mem_words : ':' ∉ "reconcile".toList ∧ ':' ∉ "leftover".toList := by simp

theorem words_ne : "reconcile".toList ≠ "leftover".toList := by simp

theorem colon_not_mem_owner {id : EventId} (formed : id.WellFormed) : ':' ∉ id.owner := by
  cases id with
  | state cloid entered => exact formed.1
  | fill cloid tradeId => exact formed.1.1
  | piece cloid tradeId owner => exact formed.1.1
  | reconcile symbol tsNs => exact colon_not_mem_words.1
  | leftover symbol tsNs owner => exact colon_not_mem_words.2

theorem colon_not_mem_state (entered : OrderState) : ':' ∉ entered.value.toList := by
  cases entered <;> simp [OrderState.value]

theorem state_value_injective : Function.Injective OrderState.value := by
  intro a b same
  cases a <;> cases b <;> simp [OrderState.value] at same <;> rfl

/-- Nothing a fill writes is a state. -/
theorem state_ne_fill {entered : OrderState} {text : Text} :
    entered.value.toList ≠ "fill".toList ++ ':' :: text := fun same =>
  colon_not_mem_state entered (same ▸ List.mem_append_right _ List.mem_cons_self)

/-- Nor is a whole fill the piece of one. -/
theorem fill_ne_piece {tradeId : String} {text rest : Text} (plain : ':' ∉ tradeId.toList) :
    "fill".toList ++ ':' :: tradeId.toList ≠ "fill".toList ++ ':' :: (text ++ ':' :: rest) :=
  fun same => by
    have tails := (List.append_cancel_left same : ':' :: tradeId.toList = _)
    rw [(List.cons.inj tails).2] at plain
    exact plain (List.mem_append_right _ List.mem_cons_self)

theorem cloid_ne_word {cloid : Cloid} (text : WellFormed.CloidText cloid) :
    cloid.toList ≠ "reconcile".toList ∧ cloid.toList ≠ "leftover".toList :=
  ⟨fun same => text.2.1 (String.toList_inj.mp same),
    fun same => text.2.2 (String.toList_inj.mp same)⟩

/-- **Well-formed ids of one text are one id.** -/
theorem render_injOn : Set.InjOn render {id | id.WellFormed} := by
  intro a formedA b formedB same
  obtain ⟨owners, rests⟩ := (cons_inj_of_front (colon_not_mem_owner formedA)
    (colon_not_mem_owner formedB)).mp same
  cases a with
  | state cloid entered =>
      cases b with
      | state cloid' entered' =>
          rw [String.toList_inj.mp owners, state_value_injective (String.toList_inj.mp rests)]
      | fill => exact absurd rests state_ne_fill
      | piece => exact absurd rests state_ne_fill
      | reconcile => exact absurd owners (cloid_ne_word formedA).1
      | leftover => exact absurd owners (cloid_ne_word formedA).2
  | fill cloid tradeId =>
      cases b with
      | state => exact absurd rests.symm state_ne_fill
      | fill cloid' tradeId' =>
          have trades := (List.cons.inj (List.append_cancel_left rests)).2
          rw [String.toList_inj.mp owners, String.toList_inj.mp trades]
      | piece => exact absurd rests (fill_ne_piece formedA.2)
      | reconcile => exact absurd owners (cloid_ne_word formedA.1).1
      | leftover => exact absurd owners (cloid_ne_word formedA.1).2
  | piece cloid tradeId owner =>
      cases b with
      | state => exact absurd rests.symm state_ne_fill
      | fill => exact absurd rests.symm (fill_ne_piece formedB.2)
      | piece cloid' tradeId' owner' =>
          have pieces := (List.cons.inj (List.append_cancel_left rests)).2
          obtain ⟨trades, names⟩ := (cons_inj_of_front formedA.2 formedB.2).mp pieces
          rw [String.toList_inj.mp owners, String.toList_inj.mp trades, String.toList_inj.mp names]
      | reconcile => exact absurd owners (cloid_ne_word formedA.1).1
      | leftover => exact absurd owners (cloid_ne_word formedA.1).2
  | reconcile symbol tsNs =>
      cases b with
      | state => exact absurd owners.symm (cloid_ne_word formedB).1
      | fill => exact absurd owners.symm (cloid_ne_word formedB.1).1
      | piece => exact absurd owners.symm (cloid_ne_word formedB.1).1
      | reconcile symbol' tsNs' =>
          obtain ⟨symbols, times⟩ := (cons_inj_of_back SignalFields.colon_not_mem_decimal
            SignalFields.colon_not_mem_decimal).mp rests
          rw [String.toList_inj.mp symbols, decimal_injective times]
      | leftover => exact absurd owners words_ne
  | leftover symbol tsNs owner =>
      cases b with
      | state => exact absurd owners.symm (cloid_ne_word formedB).2
      | fill => exact absurd owners.symm (cloid_ne_word formedB.1).2
      | piece => exact absurd owners.symm (cloid_ne_word formedB.1).2
      | reconcile => exact absurd owners.symm words_ne
      | leftover symbol' tsNs' owner' =>
          obtain ⟨symbols, tails⟩ := (cons_inj_of_front formedA formedB).mp rests
          obtain ⟨times, names⟩ := (cons_inj_of_front SignalFields.colon_not_mem_decimal
            SignalFields.colon_not_mem_decimal).mp tails
          rw [String.toList_inj.mp symbols, decimal_injective times, String.toList_inj.mp names]

/-- The text every fill of an order starts with. -/
def fillsOf (cloid : Cloid) : Text := cloid.toList ++ ':' :: ("fill".toList ++ [':'])

/-- The ids a saga keeps: its states and its fills. -/
def OfSaga : EventId → Prop
  | state .. | fill .. => True
  | piece .. | reconcile .. | leftover .. => False

theorem startsWith_fillsOf {id : EventId} {cloid : Cloid} (formed : id.WellFormed)
    (kept : id.OfSaga) (text : WellFormed.CloidText cloid) :
    (fillsOf cloid).isPrefixOf id.render = id.isFillOf cloid := by
  rw [Bool.eq_iff_iff, List.isPrefixOf_iff_prefix]
  cases id with
  | state other entered =>
      refine ⟨fun ⟨rest, same⟩ => ?_, fun none_ => by cases none_⟩
      rw [fillsOf, List.append_assoc, List.cons_append] at same
      have tails := ((cons_inj_of_front text.1 formed.1).mp same).2
      rw [List.append_assoc] at tails
      exact absurd tails.symm state_ne_fill
  | fill other tradeId =>
      constructor
      · rintro ⟨rest, same⟩
        rw [fillsOf, List.append_assoc, List.cons_append] at same
        have owners := ((cons_inj_of_front text.1 formed.1.1).mp same).1
        exact beq_iff_eq.mpr (String.toList_inj.mp owners).symm
      · intro same
        cases beq_iff_eq.mp same
        refine ⟨tradeId.toList, ?_⟩
        rw [fillsOf, List.append_assoc, List.cons_append, List.append_assoc]
        rfl
  | piece => cases kept
  | reconcile => cases kept
  | leftover => cases kept

/-- **A dedup set of texts answers as the set of ids does**: it holds an id's text
exactly when the set holds the id, and as many of a saga's texts start as a cloid's fills
do as the saga has fills of that cloid. -/
theorem texts_dedup {ids : Finset EventId} (formed : ∀ id ∈ ids, id.WellFormed) :
    (∀ id : EventId, id.WellFormed → (id.render ∈ ids.image render ↔ id ∈ ids)) ∧
    ((∀ id ∈ ids, id.OfSaga) → ∀ cloid : Cloid, WellFormed.CloidText cloid →
      ((ids.image render).filter fun text => (fillsOf cloid).isPrefixOf text).card =
        (ids.filter fun id => id.isFillOf cloid).card) := by
  constructor
  · intro id wellFormed
    rw [Finset.mem_image]
    constructor
    · rintro ⟨known, member, same⟩
      rwa [← render_injOn (formed known member) wellFormed same]
    · exact fun member => ⟨id, member, rfl⟩
  · intro saga cloid text
    rw [Finset.filter_image, Finset.card_image_of_injOn]
    · congr 1
      refine Finset.filter_congr fun id member => ?_
      rw [startsWith_fillsOf (formed id member) (saga id member) text]
    · intro a memberA b memberB same
      exact render_injOn (formed a (Finset.mem_filter.mp memberA).1)
        (formed b (Finset.mem_filter.mp memberB).1) same

namespace Sample

/-- A live order and two of its fills. -/
def sagaIds : Finset EventId :=
  {.state "0xfe" .live, .fill "0xfe" "0xfe-1", .fill "0xfe" "0xfe-2"}

theorem two_fills :
    ((sagaIds.image render).filter fun text => (fillsOf "0xfe").isPrefixOf text).card = 2 := by
  have cloid : WellFormed.CloidText "0xfe" := by simp [WellFormed.CloidText]
  refine ((texts_dedup ?_).2 ?_ "0xfe" cloid).trans (by decide)
  · intro id member
    simp only [sagaIds, Finset.mem_insert, Finset.mem_singleton] at member
    rcases member with rfl | rfl | rfl
    · exact cloid
    · exact ⟨cloid, by simp⟩
    · exact ⟨cloid, by simp⟩
  · intro id member
    simp only [sagaIds, Finset.mem_insert, Finset.mem_singleton] at member
    rcases member with rfl | rfl | rfl <;> trivial

end Sample

end EventId

end Tickwright.Domain
