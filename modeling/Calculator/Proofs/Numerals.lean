import Calculator.Lexeme
import Calculator.Numeral.Reader
import Calculator.Proofs.Rounding
import Mathlib.Data.List.TakeWhile

namespace Calculator.Numeral

open Scan (isNumeric)

inductive Sign : List Char → Bool → Prop
  | none : Sign [] false
  | plus : Sign ['+'] false
  | minus : Sign ['-'] true

/-- Digits with at most one point among them and at least one digit. -/
inductive Mantissa : List Char → ℚ → Prop
  | whole {ds : List Char} : (∀ c ∈ ds, c.isDigit) → ds ≠ [] → Mantissa ds (natural ds)
  | pointed {ds fs : List Char} : (∀ c ∈ ds, c.isDigit) → (∀ c ∈ fs, c.isDigit) → ds ++ fs ≠ [] →
      Mantissa (ds ++ '.' :: fs) (natural (ds ++ fs) / 10 ^ fs.length)

inductive Exponent : List Char → ℤ → Prop
  | absent : Exponent [] 0
  | marked {mark : Char} {sign ds : List Char} {negative : Bool} : mark = 'e' ∨ mark = 'E' → Sign sign negative →
      (∀ c ∈ ds, c.isDigit) → ds ≠ [] → Exponent (mark :: (sign ++ ds)) (if negative then -natural ds else natural ds)

/-- What a text stands for. The sign is kept apart, since zero has one too. -/
inductive Reading
  | exact (negative : Bool) (q : ℚ)
  | infinite (negative : Bool)
  | nan

/-- The texts that are numbers. Words are in letters of either case. -/
inductive Spells : List Char → Reading → Prop
  | exact {sign mantissa exponent : List Char} {negative : Bool} {m : ℚ} {e : ℤ} : Sign sign negative →
      Mantissa mantissa m → Exponent exponent e → Spells (sign ++ (mantissa ++ exponent)) (.exact negative (m * 10 ^ e))
  | infinite {sign word : List Char} {negative : Bool} : Sign sign negative →
      String.ofList (word.map Char.toLower) = "inf" ∨ String.ofList (word.map Char.toLower) = "infinity" →
      Spells (sign ++ word) (.infinite negative)
  | nan {sign word : List Char} {negative : Bool} : Sign sign negative →
      String.ofList (word.map Char.toLower) = "nan" → Spells (sign ++ word) .nan

def reading : Numeral → Reading
  | finite negative magnitude => .exact negative magnitude.value
  | infinite negative => .infinite negative
  | nan => .nan

section Characters

variable {c : Char} {ds cs : List Char}

theorem isDigit_of_isNumeric (h : isNumeric c) (hne : c ≠ '.') : c.isDigit := by
  rw [isNumeric, Bool.or_eq_true] at h
  exact h.resolve_right fun hp => hne (beq_iff_eq.mp hp)

theorem isNumeric_of_isDigit (hc : c.isDigit) : isNumeric c := by
  rw [isNumeric, hc]
  rfl

theorem isDigit_eq_false (h : isNumeric c = false) : c.isDigit = false := (Bool.or_eq_false_iff.mp h).1

theorem toLower_of_isNumeric (h : isNumeric c) : c.toLower = c := by
  by_cases hp : c = '.'
  · subst hp
    rfl
  · have hle : c.toNat ≤ 57 := (Char.isDigit_iff_toNat.mp (isDigit_of_isNumeric h hp)).2
    refine dif_neg fun hA => ?_
    have hge : 65 ≤ c.toNat := UInt32.le_iff_toNat_le.mp hA.1
    omega

theorem ne_sign_of_isNumeric (h : isNumeric c) : c ≠ '+' ∧ c ≠ '-' := by
  constructor
  · rintro rfl
    exact absurd h (by decide)
  · rintro rfl
    exact absurd h (by decide)

theorem span_isDigit (h : ∀ c ∈ ds, c.isDigit) (hcs : ∀ c ∈ cs.head?, c.isDigit = false) :
    (ds ++ cs).takeWhile Char.isDigit = ds ∧ (ds ++ cs).dropWhile Char.isDigit = cs := by
  rw [List.takeWhile_append_of_pos h, List.dropWhile_append_of_pos h]
  cases cs with
  | nil => exact ⟨List.append_nil ds, rfl⟩
  | cons c cs =>
      have hne : ¬ c.isDigit := Bool.eq_false_iff.mp (hcs c rfl)
      rw [List.takeWhile_cons_of_neg hne, List.dropWhile_cons_of_neg hne]
      exact ⟨List.append_nil ds, rfl⟩

end Characters

section Parts

variable {c : Char} {cs sign ds fs rest mantissa exponent : List Char} {negative : Bool} {m : ℚ} {e : ℤ}

theorem takeSign_sign (h : Sign sign negative) (hcs : ∀ c ∈ cs.head?, c ≠ '+' ∧ c ≠ '-') :
    takeSign (sign ++ cs) = (negative, cs) := by
  cases h with
  | none =>
      change takeSign cs = _
      unfold takeSign
      split
      · exact absurd rfl (hcs _ rfl).2
      · exact absurd rfl (hcs _ rfl).1
      · rfl
  | plus | minus => rfl

theorem exists_sign (cs : List Char) : ∃ sign, Sign sign (takeSign cs).1 ∧ cs = sign ++ (takeSign cs).2 := by
  unfold takeSign
  split
  · exact ⟨_, .minus, rfl⟩
  · exact ⟨_, .plus, rfl⟩
  · exact ⟨_, .none, rfl⟩

theorem exponent?_eq_some (h : exponent? cs = some e) : Exponent cs e := by
  cases cs with
  | nil =>
      cases h
      exact .absent
  | cons c cs =>
      obtain ⟨sign, hsign, hcs⟩ := exists_sign cs
      rw [exponent?] at h
      dsimp only at h
      obtain ⟨⟨hmark, hne, hd⟩, he⟩ := Option.ite_none_right_eq_some.mp h
      obtain rfl := Option.some.inj he
      have hexponent := Exponent.marked hmark hsign (List.all_eq_true.mp hd) hne
      rwa [← hcs] at hexponent

theorem Exponent.read (h : Exponent exponent e) : exponent? exponent = some e := by
  cases h with
  | absent => rfl
  | @marked mark sign ds negative hmark hsign hd hne =>
      have hhead : ∀ c ∈ ds.head?, c ≠ '+' ∧ c ≠ '-' := fun c hc =>
        ne_sign_of_isNumeric (isNumeric_of_isDigit (hd c (List.mem_of_mem_head? hc)))
      rw [exponent?, takeSign_sign hsign hhead]
      exact if_pos ⟨hmark, hne, List.all_eq_true.mpr hd⟩

theorem Exponent.head (h : Exponent exponent e) : ∀ c ∈ exponent.head?, isNumeric c = false := by
  cases h with
  | absent => exact nofun
  | marked hmark =>
      rintro c ⟨⟩
      rcases hmark with rfl | rfl <;> rfl

theorem takeFraction_of_head (h : ∀ c ∈ cs.head?, isNumeric c = false) : takeFraction cs = ([], cs) := by
  unfold takeFraction
  split
  · exact absurd (h _ rfl) (by decide)
  · rfl

theorem decimal?_whole (hd : ∀ c ∈ ds, c.isDigit) (hne : ds ≠ []) (he : Exponent exponent e) :
    decimal? (ds ++ exponent) = some ⟨natural ds, e⟩ := by
  obtain ⟨htake, hdrop⟩ := span_isDigit hd fun c hc => isDigit_eq_false (he.head c hc)
  rw [decimal?, htake, hdrop, takeFraction_of_head he.head]
  dsimp only
  rw [if_neg fun hn => hne hn.1, he.read, List.append_nil]
  exact congrArg (fun x => some (Decimal.mk _ x)) (sub_zero e)

theorem decimal?_point (hd : ∀ c ∈ ds, c.isDigit) (hf : ∀ c ∈ fs, c.isDigit) (hne : ds ++ fs ≠ [])
    (he : Exponent exponent e) : decimal? (ds ++ '.' :: (fs ++ exponent)) = some ⟨natural (ds ++ fs), e - fs.length⟩ := by
  have hpoint : ∀ c ∈ ('.' :: (fs ++ exponent)).head?, c.isDigit = false := by
    rintro c ⟨⟩
    rfl
  obtain ⟨htake, hdrop⟩ := span_isDigit hd hpoint
  obtain ⟨htake', hdrop'⟩ := span_isDigit hf fun c hc => isDigit_eq_false (he.head c hc)
  have hfraction : takeFraction ('.' :: (fs ++ exponent)) = (fs, exponent) := by rw [takeFraction, htake', hdrop']
  rw [decimal?, htake, hdrop, hfraction]
  dsimp only
  rw [if_neg fun hn => hne (List.append_eq_nil_iff.mpr hn), he.read]
  rfl

theorem value_point (k : Nat) (e : ℤ) (n : Nat) : Decimal.value ⟨k, e - n⟩ = k / 10 ^ n * 10 ^ e := by
  change (k : ℚ) * 10 ^ (e - n) = _
  rw [zpow_sub₀ (by norm_num), zpow_natCast, mul_div_assoc', div_mul_eq_mul_div]

theorem Mantissa.read (h : Mantissa mantissa m) (he : Exponent exponent e) :
    ∃ d, decimal? (mantissa ++ exponent) = some d ∧ d.value = m * 10 ^ e := by
  cases h with
  | whole hd hne => exact ⟨_, decimal?_whole hd hne he, rfl⟩
  | pointed hd hf hne =>
      rw [List.append_assoc, List.cons_append]
      exact ⟨_, decimal?_point hd hf hne he, value_point _ _ _⟩

theorem exists_fraction (cs : List Char) :
    takeFraction cs = ([], cs) ∨
      ∃ fs rest, (∀ c ∈ fs, c.isDigit) ∧ cs = '.' :: (fs ++ rest) ∧ takeFraction cs = (fs, rest) := by
  unfold takeFraction
  split
  · exact .inr ⟨_, _, fun c hc => List.mem_takeWhile_imp hc, by rw [List.takeWhile_append_dropWhile], rfl⟩
  · exact .inl rfl

theorem decimal?_eq_some {d : Decimal} (h : decimal? cs = some d) :
    ∃ mantissa exponent m e, cs = mantissa ++ exponent ∧ Mantissa mantissa m ∧ Exponent exponent e ∧
      d.value = m * 10 ^ e := by
  obtain ⟨ds, hds⟩ : ∃ ds, cs.takeWhile Char.isDigit = ds := ⟨_, rfl⟩
  obtain ⟨rest, hrest⟩ : ∃ rest, cs.dropWhile Char.isDigit = rest := ⟨_, rfl⟩
  have hd : ∀ c ∈ ds, c.isDigit := by
    rw [← hds]
    exact fun c hc => List.mem_takeWhile_imp hc
  have hcs : cs = ds ++ rest := by rw [← hds, ← hrest, List.takeWhile_append_dropWhile]
  rw [decimal?, hds, hrest] at h
  rcases exists_fraction rest with hf | ⟨fs, exponent, hfs, hr, hf⟩
  · rw [hf] at h
    dsimp only at h
    split_ifs at h with hnil
    obtain ⟨e, he, rfl⟩ := Option.map_eq_some_iff.mp h
    refine ⟨ds, rest, _, e, hcs, .whole hd fun hn => hnil ⟨hn, rfl⟩, exponent?_eq_some he, ?_⟩
    simp [Decimal.value]
  · rw [hf] at h
    dsimp only at h
    split_ifs at h with hnil
    obtain ⟨e, he, rfl⟩ := Option.map_eq_some_iff.mp h
    refine ⟨ds ++ '.' :: fs, exponent, _, e, ?_, .pointed hd hfs ?_, exponent?_eq_some he, value_point _ _ _⟩
    · rw [hcs, hr, List.append_assoc, List.cons_append]
    · exact fun hn => hnil (List.append_eq_nil_iff.mp hn)

theorem Mantissa.head (h : Mantissa mantissa m) : ∃ c cs, mantissa = c :: cs ∧ isNumeric c := by
  cases h with
  | @whole ds hd hne =>
      obtain ⟨c, cs, rfl⟩ := List.exists_cons_of_ne_nil hne
      exact ⟨c, cs, rfl, isNumeric_of_isDigit (hd c List.mem_cons_self)⟩
  | @pointed ds fs hd =>
      cases ds with
      | nil => exact ⟨'.', fs, rfl, rfl⟩
      | cons c cs => exact ⟨c, _, rfl, isNumeric_of_isDigit (hd c List.mem_cons_self)⟩

end Parts

section Whole

variable {cs sign : List Char} {negative : Bool} {c : Char} {x : Numeral} {r : Reading}

theorem ofList?_of_head (h : Sign sign negative) (hc : isNumeric c) (cs : List Char) :
    ofList? (sign ++ c :: cs) = (decimal? (c :: cs)).map (finite negative) := by
  have hword {w : String} (hw : ∀ d ∈ w.toList.head?, isNumeric d = false) :
      String.ofList ((c :: cs).map Char.toLower) ≠ w := by
    rintro rfl
    rw [String.toList_ofList, List.map_cons, toLower_of_isNumeric hc] at hw
    rw [hw c rfl] at hc
    cases hc
  have hinf := hword (w := "inf") (by rintro d ⟨⟩; rfl)
  have hinfinity := hword (w := "infinity") (by rintro d ⟨⟩; rfl)
  have hnan := hword (w := "nan") (by rintro d ⟨⟩; rfl)
  have hfirst : ∀ d ∈ (c :: cs).head?, d ≠ '+' ∧ d ≠ '-' := by
    rintro d ⟨⟩
    exact ne_sign_of_isNumeric hc
  rw [ofList?, takeSign_sign h hfirst]
  dsimp only
  rw [if_neg (not_or.mpr ⟨hinf, hinfinity⟩), if_neg hnan]

theorem takeSign_word {word : List Char} {w : String} (h : Sign sign negative)
    (hword : String.ofList (word.map Char.toLower) = w) (hw : w.toList.head? = some c) (hc : c ≠ '+' ∧ c ≠ '-') :
    takeSign (sign ++ word) = (negative, word) := by
  refine takeSign_sign h fun d hd => ?_
  subst hword
  rw [String.toList_ofList, List.head?_map, hd] at hw
  obtain rfl := Option.some.inj hw
  constructor
  · rintro rfl
    exact hc.1 rfl
  · rintro rfl
    exact hc.2 rfl

theorem spells_of_ofList? (h : ofList? cs = some x) : Spells cs x.reading := by
  obtain ⟨sign, hsign, hcs⟩ := exists_sign cs
  rw [ofList?] at h
  dsimp only at h
  rw [hcs]
  split_ifs at h with hinf hnan
  · cases h
    exact .infinite hsign hinf
  · cases h
    exact .nan hsign hnan
  · obtain ⟨d, hd, rfl⟩ := Option.map_eq_some_iff.mp h
    obtain ⟨mantissa, exponent, m, e, hbody, hm, he, hvalue⟩ := decimal?_eq_some hd
    rw [hbody, reading, hvalue]
    exact .exact hsign hm he

theorem Spells.read (h : Spells cs r) : ∃ x, ofList? cs = some x ∧ x.reading = r := by
  cases h with
  | @exact sign mantissa exponent negative m e hsign hm he =>
      obtain ⟨c, cs, rfl, hc⟩ := hm.head
      obtain ⟨d, hd, hvalue⟩ := hm.read he
      rw [List.cons_append] at hd ⊢
      rw [ofList?_of_head hsign hc, hd]
      exact ⟨_, rfl, by rw [reading, hvalue]⟩
  | infinite hsign hword =>
      have htake := hword.elim (fun hw => takeSign_word hsign hw (c := 'i') rfl (by decide)) fun hw =>
        takeSign_word hsign hw (c := 'i') rfl (by decide)
      refine ⟨.infinite _, ?_, rfl⟩
      rw [ofList?, htake]
      exact if_pos hword
  | nan hsign hword =>
      refine ⟨.nan, ?_, rfl⟩
      rw [ofList?, takeSign_word hsign hword (c := 'n') rfl (by decide)]
      dsimp only
      rw [hword]
      rfl

end Whole

end Calculator.Numeral
