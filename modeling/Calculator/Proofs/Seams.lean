import Calculator.Proofs.Spans
import Mathlib.Data.List.DropRight

namespace Calculator

open Scan (Apart isNumeric)

variable {s t a b before after : String} {x y : List Token} {c : Char} {p : Nat} {e : EvalError}

theorem StraysAt.append (h : StraysAt s before c after) (t : String) : StraysAt (s ++ t) before c (after ++ t) := by
  obtain ⟨rfl, hbefore, hc⟩ := h
  exact ⟨by simp only [String.append_assoc], hbefore, hc⟩

theorem StraysAt.prepend (h : StraysAt s before c after) (ht : ∀ d ∈ t.toList, Alphabet d) :
    StraysAt (t ++ s) (t ++ before) c after := by
  obtain ⟨rfl, hbefore, hc⟩ := h
  refine ⟨by simp only [String.append_assoc], ?_, hc⟩
  rw [String.toList_append]
  exact List.forall_mem_append.mpr ⟨ht, hbefore⟩

theorem stray_of_tokenize (h : tokenize s = .error e) :
    ∃ before c after, StraysAt s before c after ∧ e = .invalidCharacter c before.utf8ByteSize := by
  rcases alphabet_or_stray s with ha | ⟨before, c, after, hs⟩
  · rw [(tokenize_of_alphabet ha).1] at h
    cases h
  · rw [tokenize_of_stray hs] at h
    cases h
    exact ⟨before, c, after, hs, rfl⟩

theorem alphabet_of_tokenize (h : tokenize s = .ok x) : ∀ c ∈ s.toList, Alphabet c := by
  rcases alphabet_or_stray s with ha | ⟨before, c, after, hs⟩
  · exact ha
  · rw [tokenize_of_stray hs] at h
    cases h

theorem tokenize_append_of_error (ha : tokenize a = .error e) (b : String) : tokenize (a ++ b) = .error e := by
  obtain ⟨before, c, after, hs, rfl⟩ := stray_of_tokenize ha
  exact tokenize_of_stray (hs.append b)

theorem tokenize_append_error (ha : tokenize a = .ok x) (hb : tokenize b = .error (.invalidCharacter c p)) :
    tokenize (a ++ b) = .error (.invalidCharacter c (p + a.utf8ByteSize)) := by
  obtain ⟨before, d, after, hs, he⟩ := stray_of_tokenize hb
  cases he
  rw [tokenize_of_stray (hs.prepend (alphabet_of_tokenize ha)), String.utf8ByteSize_append, Nat.add_comm]

theorem tokenize_append (h : Apart a.toList b.toList) (ha : tokenize a = .ok x) (hb : tokenize b = .ok y) :
    tokenize (a ++ b) = .ok (x ++ y) := by
  obtain ⟨-, hcut⟩ := Scan.cut_ofListAt 0 a.toList (alphabet_of_tokenize ha)
  obtain ⟨-, hcut'⟩ := Scan.cut_ofListAt (0 + Scan.utf8Length a.toList) b.toList (alphabet_of_tokenize hb)
  obtain rfl := Except.ok.inj (ha.symm.trans (hcut.outcome 0))
  obtain rfl := Except.ok.inj (hb.symm.trans (hcut'.outcome 0))
  rw [tokenize, Scan.ofString, String.toList_append, (hcut.append hcut' h).outcome 0, List.map_append]

theorem tokenize_number (hne : s.toList ≠ []) (h : ∀ c ∈ s.toList, isNumeric c) : tokenize s = .ok [.literal s] :=
  tokenize_display (.literal hne h)

theorem exists_tokens_of_subset (hs : tokenize s = .ok x) (h : t.toList ⊆ s.toList) : ∃ y, tokenize t = .ok y :=
  ⟨_, (tokenize_of_alphabet fun c hc => alphabet_of_tokenize hs c (h hc)).1⟩

theorem exists_last_literal (ha : tokenize a = .ok x) (hc : c ∈ a.toList.getLast?) (hn : isNumeric c) :
    ∃ before u xs, a = before ++ u ∧ x = xs ++ [.literal u] ∧ tokenize before = .ok xs ∧
      (∀ d ∈ before.toList.getLast?, isNumeric d = false) ∧ u.toList ≠ [] ∧ ∀ d ∈ u.toList, isNumeric d := by
  obtain ⟨cs, run, hcs, hrun⟩ : ∃ cs run, cs = a.toList.rdropWhile isNumeric ∧ run = a.toList.rtakeWhile isNumeric :=
    ⟨_, _, rfl, rfl⟩
  have htext : a.toList = cs ++ run := by rw [hcs, hrun, List.rdropWhile_append_rtakeWhile]
  have hlast : ∀ d ∈ cs.getLast?, isNumeric d = false := by
    intro d hd
    obtain ⟨hne, rfl⟩ := List.mem_getLast?_eq_getLast hd
    subst hcs
    exact Bool.eq_false_iff.mpr (List.rdropWhile_last_not _ _ hne)
  have hne : run ≠ [] := by
    obtain ⟨hane, rfl⟩ := List.mem_getLast?_eq_getLast hc
    rw [hrun, Ne, List.rtakeWhile_eq_nil_iff]
    exact fun h => h hane hn
  have hall : ∀ d ∈ run, isNumeric d := by
    intro d hd
    rw [hrun] at hd
    exact List.mem_rtakeWhile_imp hd
  have happend : a = String.ofList cs ++ String.ofList run := by rw [← String.toList_inj, htext]; simp
  obtain ⟨xs, hxs⟩ := exists_tokens_of_subset (t := String.ofList cs) ha (by simp [htext])
  have hu := tokenize_number (s := String.ofList run) (by simpa using hne) (by simpa using hall)
  have hwhole := tokenize_append (.inl (by simpa using hlast)) hxs hu
  rw [← happend, ha] at hwhole
  exact ⟨_, _, xs, happend, Except.ok.inj hwhole, hxs, by simpa using hlast, by simpa using hne, by simpa using hall⟩

theorem exists_first_literal (hb : tokenize b = .ok y) (hc : c ∈ b.toList.head?) (hn : isNumeric c) :
    ∃ u after ys, b = u ++ after ∧ y = .literal u :: ys ∧ tokenize after = .ok ys ∧
      (∀ d ∈ after.toList.head?, isNumeric d = false) ∧ ∀ d ∈ u.toList, isNumeric d := by
  obtain ⟨run, cs, hrun, hcs⟩ : ∃ run cs, run = b.toList.takeWhile isNumeric ∧ cs = b.toList.dropWhile isNumeric :=
    ⟨_, _, rfl, rfl⟩
  have htext : b.toList = run ++ cs := by rw [hcs, hrun, List.takeWhile_append_dropWhile]
  have hfirst : ∀ d ∈ cs.head?, isNumeric d = false := by
    intro d hd
    have hhead := List.head?_dropWhile_not isNumeric b.toList
    rw [← hcs, Option.mem_def.mp hd] at hhead
    exact hhead
  have hne : run ≠ [] := by
    obtain ⟨ds, hds⟩ := List.head?_eq_some_iff.mp hc
    rw [hrun, hds, List.takeWhile_cons_of_pos hn]
    exact List.cons_ne_nil _ _
  have hall : ∀ d ∈ run, isNumeric d := by
    intro d hd
    rw [hrun] at hd
    exact List.mem_takeWhile_imp hd
  have happend : b = String.ofList run ++ String.ofList cs := by rw [← String.toList_inj, htext]; simp
  obtain ⟨ys, hys⟩ := exists_tokens_of_subset (t := String.ofList cs) hb (by simp [htext])
  have hu := tokenize_number (s := String.ofList run) (by simpa using hne) (by simpa using hall)
  have hwhole := tokenize_append (.inr (by simpa using hfirst)) hu hys
  rw [← happend, hb] at hwhole
  exact ⟨_, _, ys, happend, Except.ok.inj hwhole, hys, by simpa using hfirst, by simpa using hall⟩

/-- A literal goes across the seam of two texts if digits and points meet there. -/
theorem tokenize_append_fused (h : ¬ Apart a.toList b.toList) (ha : tokenize a = .ok x) (hb : tokenize b = .ok y) :
    ∃ xs u v ys, x = xs ++ [.literal u] ∧ y = .literal v :: ys ∧ tokenize (a ++ b) = .ok (xs ++ .literal (u ++ v) :: ys) := by
  obtain ⟨hlast, hfirst⟩ := not_or.mp h
  push Not at hlast hfirst
  obtain ⟨c, hc, hcn⟩ := hlast
  obtain ⟨d, hd, hdn⟩ := hfirst
  obtain ⟨before, u, xs, rfl, rfl, hbefore, hb', hune, hu⟩ := exists_last_literal ha hc (by simpa using hcn)
  obtain ⟨v, after, ys, rfl, rfl, hafter, ha', hv⟩ := exists_first_literal hb hd (by simpa using hdn)
  refine ⟨xs, u, v, ys, rfl, rfl, ?_⟩
  have hnumber : tokenize (u ++ v) = .ok [.literal (u ++ v)] :=
    tokenize_number (by simp [hune]) (by rw [String.toList_append]; exact List.forall_mem_append.mpr ⟨hu, hv⟩)
  have htail : tokenize (u ++ v ++ after) = .ok (.literal (u ++ v) :: ys) := tokenize_append (.inr ha') hnumber hafter
  have hwhole := tokenize_append (.inl hb') hbefore htail
  simp only [← String.append_assoc] at hwhole ⊢
  exact hwhole

/-- The tokens of two texts are those of the texts put together, unless digits or points meet at the seam: then the last
literal of the first text and the first one of the second become one. A character that belongs to no token is found
where it stands, and the first text is looked at first. -/
theorem tokenize_joined (a b : String) :
    (∀ e, tokenize a = .error e → tokenize (a ++ b) = .error e) ∧
      (∀ x c p, tokenize a = .ok x → tokenize b = .error (.invalidCharacter c p) →
        tokenize (a ++ b) = .error (.invalidCharacter c (p + a.utf8ByteSize))) ∧
      ∀ x y, tokenize a = .ok x → tokenize b = .ok y →
        (Apart a.toList b.toList → tokenize (a ++ b) = .ok (x ++ y)) ∧
        (¬ Apart a.toList b.toList → ∃ xs u v ys, x = xs ++ [.literal u] ∧ y = .literal v :: ys ∧
          tokenize (a ++ b) = .ok (xs ++ .literal (u ++ v) :: ys)) :=
  ⟨fun _ ha => tokenize_append_of_error ha b, fun _ _ _ ha hb => tokenize_append_error ha hb,
    fun _ _ ha hb => ⟨fun h => tokenize_append h ha hb, fun h => tokenize_append_fused h ha hb⟩⟩

theorem tokenize_joined_literal :
    tokenize ("*1." ++ ".5") = .ok [.operator .multiply, .literal "1..5"] ∧
      tokenize ("*1." ++ "+.5") = .ok [.operator .multiply, .literal "1.", .operator .add, .literal ".5"] ∧
      tokenize ("*1\u2003" ++ "5é") = .error (.invalidCharacter 'é' 6) ∧
      tokenize ("é1" ++ "5é") = .error (.invalidCharacter 'é' 0) := by
  have htokens : tokenize "*1." = .ok [.operator .multiply, .literal "1."] := by decide +kernel
  refine ⟨?_, ?_, ?_, ?_⟩
  · have hmeet : ¬ Apart "*1.".toList ".5".toList :=
      not_or.mpr ⟨fun h => absurd (h '.' rfl) (by decide), fun h => absurd (h '.' rfl) (by decide)⟩
    have hnext : tokenize ".5" = .ok [.literal ".5"] := by decide +kernel
    obtain ⟨xs, u, v, ys, hx, hy, h⟩ := ((tokenize_joined "*1." ".5").2.2 _ _ htokens hnext).2 hmeet
    obtain ⟨rfl, hu⟩ := List.append_inj' (show [Token.operator .multiply] ++ [.literal "1."] = xs ++ [.literal u] from hx) rfl
    cases hu
    cases hy
    exact h
  · have hadded : tokenize "+.5" = .ok [.operator .add, .literal ".5"] := by decide +kernel
    exact ((tokenize_joined "*1." "+.5").2.2 _ _ htokens hadded).1 (.inr (by rintro d ⟨⟩; rfl))
  · have hblank : tokenize "*1\u2003" = .ok [.operator .multiply, .literal "1"] := by decide +kernel
    exact (tokenize_joined "*1\u2003" "5é").2.1 _ _ 1 hblank (by decide +kernel)
  · exact (tokenize_joined "é1" "5é").1 _ (by decide +kernel)

end Calculator
