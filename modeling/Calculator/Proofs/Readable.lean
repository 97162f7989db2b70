import Calculator.Proofs.Nearest
import Calculator.Proofs.Spans
import Calculator.Proofs.Written

namespace Calculator

open Binary64

namespace Numeral

variable {text : String} {cs : List Char} {r : Reading} {v : Float}

/-- The values that stand for a number. There is one for each. -/
def Reading.Denotes : Reading → Float → Prop
  | exact negative q, v => IsNearest negative q v
  | infinite negative, v => v.isInf = true ∧ isNegative v = negative
  | nan, v => v.isNaN = true

theorem denotes_iff (x : Numeral) : x.reading.Denotes v ↔ v = x.toFloat := by
  cases x with
  | finite negative d => exact d.isNearest_iff
  | infinite negative =>
      refine ⟨fun ⟨hinf, hsign⟩ => ?_, ?_⟩
      · have hrank := (isInf_iff v).mp hinf
        rw [toFloat, ← hsign, ← hrank, ofRank_rank hrank.le]
      · rintro rfl
        exact ⟨(isInf_iff _).mpr (rank_ofRank negative le_rfl), isNegative_ofRank negative le_rfl⟩
  | nan =>
      have hnan : (toFloat .nan).isNaN = true := (isNaN_ofBits _).mpr (by decide)
      refine ⟨fun hv => eq_of_isNaN hv hnan, ?_⟩
      rintro rfl
      exact hnan

theorem read_literal_eq_ok : (Operand.literal text).read = .ok v ↔ ∃ x, ofList? text.toList = some x ∧ x.toFloat = v := by
  rw [Operand.read, read?]
  cases ofList? text.toList <;> simp

theorem read_of_spells (h : Spells text.toList r) : (Operand.literal text).read = .ok v ↔ r.Denotes v := by
  obtain ⟨x, hx, rfl⟩ := h.read
  rw [read_literal_eq_ok, hx, denotes_iff]
  simp [eq_comm]

theorem spells_of_read (h : (Operand.literal text).read = .ok v) : ∃ r, Spells text.toList r ∧ r.Denotes v := by
  obtain ⟨x, hx, rfl⟩ := read_literal_eq_ok.mp h
  exact ⟨_, spells_of_ofList? hx, (denotes_iff x).mpr rfl⟩

theorem exists_denotes (h : Spells cs r) : ∃ v, r.Denotes v := by
  obtain ⟨x, -, rfl⟩ := h.read
  exact ⟨_, (denotes_iff x).mpr rfl⟩

theorem read_of_not_spells (h : ∀ r, ¬ Spells text.toList r) :
    (Operand.literal text).read = .error (.invalidNumber text) := by
  rw [Operand.read, read?]
  cases hx : ofList? text.toList with
  | none => rfl
  | some x => exact absurd (spells_of_ofList? hx) (h _)

theorem le_of_spells {t u : String} {q q' : ℚ} {w : Float} (ht : Spells t.toList (.exact false q))
    (hu : Spells u.toList (.exact false q')) (h : q ≤ q') (hv : (Operand.literal t).read = .ok v)
    (hw : (Operand.literal u).read = .ok w) : v ≤ w := by
  have hdecimal {cs : List Char} {q : ℚ} (hcs : Spells cs (.exact false q)) : ∃ d : Decimal, d.value = q := by
    obtain ⟨x, -, hx⟩ := hcs.read
    cases x with
    | finite negative d =>
        cases hx
        exact ⟨d, rfl⟩
    | infinite | nan => cases hx
  obtain ⟨d, rfl⟩ := hdecimal ht
  obtain ⟨e, rfl⟩ := hdecimal hu
  exact Decimal.le_of_isNearest ((read_of_spells ht).mp hv) ((read_of_spells hu).mp hw) h

theorem digit_of_spells (h : ∀ c ∈ cs, Scan.isNumeric c) (hr : Spells cs r) :
    (∃ c ∈ cs, c.isDigit) ∧ cs.count '.' ≤ 1 := by
  obtain ⟨x, hx, -⟩ := hr.read
  rw [ofList?_of_isNumeric h] at hx
  obtain ⟨d, hd, -⟩ := Option.map_eq_some_iff.mp hx
  obtain ⟨mantissa, exponent, m, e, rfl, hm, he, -⟩ := decimal?_eq_some hd
  have hexponent : exponent = [] := by
    cases exponent with
    | nil => rfl
    | cons c cs =>
        have hc := h c (List.mem_append_right mantissa List.mem_cons_self)
        rw [he.head c rfl] at hc
        cases hc
  rw [hexponent, List.append_nil]
  cases hm with
  | whole hds hne =>
      obtain ⟨c, hc⟩ := List.exists_mem_of_ne_nil _ hne
      exact ⟨⟨c, hc, hds c hc⟩, (count_point hds).trans_le (Nat.zero_le 1)⟩
  | pointed hds hfs hne =>
      obtain ⟨c, hc⟩ := List.exists_mem_of_ne_nil _ hne
      refine ⟨⟨c, ?_, List.forall_mem_append.mpr ⟨hds, hfs⟩ c hc⟩, ?_⟩
      · exact (List.mem_append.mp hc).elim (List.mem_append_left _) fun hc => List.mem_append_right _ (.tail _ hc)
      · rw [List.count_append, List.count_cons_self, count_point hds, count_point hfs]

end Numeral

open Numeral

def zeros (k : Nat) : String := String.ofList (List.replicate k '0')

namespace Literal

variable {text : String}

theorem spells (x : Literal) : Spells x.text.toList (.exact false x.decimal.value) := by
  have hread : ofList? x.text.toList = some (.finite false x.decimal) := by
    rw [ofList?_of_isNumeric x.numeric, x.decimal?_text]
    rfl
  exact spells_of_ofList? hread

def pad (x : Literal) {k : Nat} (h : text.toList.Perm (List.replicate k '0' ++ x.text.toList)) : Literal where
  text := text
  numeric c hc := by
    rcases List.mem_append.mp (h.mem_iff.mp hc) with hc | hc
    · exact isNumeric_of_isDigit (isDigit_zeros k c hc)
    · exact x.numeric c hc
  digit := by
    obtain ⟨c, hc, hd⟩ := x.digit
    exact ⟨c, h.mem_iff.mpr (List.mem_append_right _ hc), hd⟩
  point := by
    rw [h.count_eq, List.count_append, count_point (isDigit_zeros k), Nat.zero_add]
    exact x.point

@[simp]
theorem text_pad (x : Literal) {k : Nat} (h : text.toList.Perm (List.replicate k '0' ++ x.text.toList)) :
    (x.pad h).text = text := rfl

theorem filter_zeros (k : Nat) : (List.replicate k '0').filter Char.isDigit = List.replicate k '0' :=
  List.filter_eq_self.mpr (isDigit_zeros k)

theorem read_zeros_append (x : Literal) (k : Nat) : (Operand.literal (zeros k ++ x.text)).read = .ok x.value := by
  have htext : (zeros k ++ x.text).toList = List.replicate k '0' ++ x.text.toList := by simp [zeros]
  have hdrop : (List.replicate k '0' ++ x.text.toList).dropWhile (· != '.') = x.text.toList.dropWhile (· != '.') :=
    List.dropWhile_append_of_pos (ne_point_of_isDigit (isDigit_zeros k))
  have hdecimal : (x.pad (.of_eq htext)).decimal = x.decimal := by
    rw [decimal, decimal, text_pad, htext, List.filter_append, filter_zeros, natural_zeros_append, hdrop]
  have hread := (x.pad (.of_eq htext)).read
  rwa [value, hdecimal] at hread

theorem read_append_zeros (x : Literal) (h : '.' ∈ x.text.toList) (k : Nat) :
    (Operand.literal (x.text ++ zeros k)).read = .ok x.value := by
  have htext : (x.text ++ zeros k).toList = x.text.toList ++ List.replicate k '0' := by simp [zeros]
  have hperm : (x.text ++ zeros k).toList.Perm (List.replicate k '0' ++ x.text.toList) := htext ▸ List.perm_append_comm
  obtain ⟨ds, fs, hsplit, hds⟩ := List.eq_append_cons_of_mem h
  have hdrop (cs : List Char) : (ds ++ '.' :: cs).dropWhile (· != '.') = '.' :: cs := by
    rw [List.dropWhile_append_of_pos fun c hc => bne_iff_ne.mpr (ne_of_mem_of_not_mem hc hds)]
    rfl
  have hvalue : (x.pad hperm).decimal.value = x.decimal.value := by
    rw [decimal, decimal, text_pad, htext, List.filter_append, filter_zeros, natural_append_zeros, Decimal.value_zeros,
      hsplit, List.append_assoc, List.cons_append, hdrop, hdrop, List.tail_cons, List.tail_cons, List.length_append, List.length_replicate]
    congr 2
    omega
  have hread := (x.pad hperm).read
  rwa [value, Numeral.toFloat, Decimal.rank_congr hvalue] at hread

end Literal

theorem lexical_of_scan (s : String) : ∀ t ∈ (Scan.ofString s).tokens, Lexical t := by
  have hlexemes : ∀ x ∈ (Scan.ofString s).lexemes, Lexical x.token := by
    rcases alphabet_or_stray s with h | ⟨before, c, after, h⟩
    · exact (Scan.ofString_alphabet h).2.lexical
    · rw [Scan.ofString_stray h]
      exact (Scan.ofString_alphabet h.2.1).2.lexical
  exact List.forall_mem_map.mpr hlexemes

theorem exists_literal_of_scan {s text : String} (h : .literal text ∈ (Scan.ofString s).tokens) :
    (∃ x : Literal, x.text = text) ↔ ∃ v, (Operand.literal text).read = .ok v := by
  refine ⟨?_, fun ⟨v, hv⟩ => ?_⟩
  · rintro ⟨x, rfl⟩
    exact ⟨x.value, x.read⟩
  · obtain ⟨r, hr, -⟩ := spells_of_read hv
    have hnumeric := (lexical_of_scan s _ h).numeric.2
    obtain ⟨hdigit, hpoint⟩ := digit_of_spells hnumeric hr
    exact ⟨⟨text, hnumeric, hdigit, hpoint⟩, rfl⟩

/-- A text is read if the grammar derives it, and as the one value that stands for what it spells: the nearest one to an
exact number. Otherwise the text is refused as it is. A literal that is scanned, also in front of a character that ends
the scan, is read if it has a digit and no second point. Then its value is a number without a sign. It does not depend
on zeros in front, nor on zeros at the end if there is a point, and it does not go down when the number goes up. -/
theorem read_by_grammar :
    (∀ text : String,
      ((∃ v, (Operand.literal text).read = .ok v) ↔ ∃ r, Spells text.toList r) ∧
      ((∀ r, ¬ Spells text.toList r) → (Operand.literal text).read = .error (.invalidNumber text)) ∧
      ∀ r, Spells text.toList r → ∀ v, (Operand.literal text).read = .ok v ↔ r.Denotes v) ∧
    (∀ s text : String, .literal text ∈ (Scan.ofString s).tokens →
      ((∃ v, (Operand.literal text).read = .ok v) ↔ (∃ c ∈ text.toList, c.isDigit) ∧ text.toList.count '.' ≤ 1) ∧
      ∀ v, (Operand.literal text).read = .ok v →
        v.isNaN = false ∧ isNegative v = false ∧ (∃ q, Spells text.toList (.exact false q)) ∧
        (∀ k, (Operand.literal (zeros k ++ text)).read = .ok v) ∧
        ('.' ∈ text.toList → ∀ k, (Operand.literal (text ++ zeros k)).read = .ok v)) ∧
    ∀ (t u : String) (q q' : ℚ) (v w : Float), Spells t.toList (.exact false q) → Spells u.toList (.exact false q') →
      q ≤ q' → (Operand.literal t).read = .ok v → (Operand.literal u).read = .ok w → v ≤ w := by
  refine ⟨fun text => ⟨⟨?_, ?_⟩, read_of_not_spells, fun r hr v => read_of_spells hr⟩, fun s text h => ⟨?_, fun v hv => ?_⟩,
    fun t u q q' v w => le_of_spells⟩
  · rintro ⟨v, hv⟩
    obtain ⟨r, hr, -⟩ := spells_of_read hv
    exact ⟨r, hr⟩
  · rintro ⟨r, hr⟩
    obtain ⟨v, hv⟩ := exists_denotes hr
    exact ⟨v, (read_of_spells hr).mpr hv⟩
  · rw [← exists_literal_of_scan h]
    refine ⟨?_, fun ⟨hdigit, hpoint⟩ => ⟨⟨text, (lexical_of_scan s _ h).numeric.2, hdigit, hpoint⟩, rfl⟩⟩
    rintro ⟨x, rfl⟩
    exact ⟨x.digit, x.point⟩
  · obtain ⟨x, rfl⟩ := (exists_literal_of_scan h).mpr ⟨v, hv⟩
    have hnearest := (read_of_spells x.spells).mp hv
    obtain rfl := Except.ok.inj (x.read.symm.trans hv)
    exact ⟨hnearest.number, hnearest.sign, ⟨_, x.spells⟩, x.read_zeros_append, x.read_append_zeros⟩

theorem read_by_grammar_halfway :
    IsNearest false 9007199254740993 9007199254740992.0 ∧
      (Operand.literal "1.5.").read = .error (.invalidNumber "1.5.") ∧
      (Operand.literal (zeros 2 ++ ".50")).read = .ok 0.5 ∧ (Operand.literal (".50" ++ zeros 2)).read = .ok 0.5 ∧
      (0.5 : Float) ≤ 9007199254740992.0 := by
  have hread : (Operand.literal "9007199254740993").read = .ok 9007199254740992.0 := by decide +kernel
  have hhalf : (Operand.literal ".50").read = .ok 0.5 := by decide +kernel
  have hscan : Token.literal ".50" ∈ (Scan.ofString "2*.50é").tokens := by decide +kernel
  have hlarge : Spells "9007199254740993".toList (.exact false (Decimal.value ⟨9007199254740993, 0⟩)) :=
    spells_of_ofList? (x := .finite false _) (by decide +kernel)
  have hsmall : Spells ".50".toList (.exact false (Decimal.value ⟨50, -2⟩)) :=
    spells_of_ofList? (x := .finite false _) (by decide +kernel)
  have hvalue : Decimal.value ⟨9007199254740993, 0⟩ = 9007199254740993 := by norm_num [Decimal.value]
  have hle : Decimal.value ⟨50, -2⟩ ≤ 9007199254740993 := by norm_num [Decimal.value]
  rw [hvalue] at hlarge
  have hnumber (r : Reading) : ¬ Spells "1.5.".toList r := by
    intro hr
    obtain ⟨x, hx, -⟩ := hr.read
    have hnone : ofList? "1.5.".toList = none := by decide +kernel
    rw [hnone] at hx
    cases hx
  obtain ⟨-, -, -, hbefore, hafter⟩ := (read_by_grammar.2.1 _ _ hscan).2 _ hhalf
  exact ⟨((read_by_grammar.1 _).2.2 _ hlarge _).mp hread, (read_by_grammar.1 _).2.1 hnumber, hbefore 2,
    hafter (by decide) 2, read_by_grammar.2.2 _ _ _ _ _ _ hsmall hlarge hle hhalf hread⟩

end Calculator
