import GraphRest.Json.Reader
import Mathlib.Tactic.SplitIfs

/-!
# Quoted texts in JSON

What is written in quotes reads back as the text, and the reading ends at the closing quote. So two
quoted texts with something behind them are the same characters only if the texts are the same and so is
what stands behind them.
-/

namespace GraphRest.Json

/-- How a character is written in quotes: as it is, by a letter, or by its code. -/
inductive Written : Char → List Char → Prop where
  | plain {c} : c ≠ '"' → c ≠ '\\' → 32 ≤ c.toNat → Written c [c]
  | letter {c d} : (c, d) ∈ [('"', '"'), ('\\', '\\'), ('\n', 'n'), ('\r', 'r'), ('\t', 't'),
      (Char.ofNat 8, 'b'), (Char.ofNat 12, 'f')] → Written c ['\\', d]
  | code {c} : c.toNat < 32 →
      Written c ['\\', 'u', '0', '0', hexDigit (c.toNat / 16), hexDigit (c.toNat % 16)]

variable {c : Char} {w r r' : List Char} {s s' : String}

/-! ## Writing a character -/

theorem eq_ofNat_of_toNat {n : Nat} (h : c.toNat = n) : c = Char.ofNat n := by
  rw [← h, Char.ofNat_toNat]

theorem written_escape (c : Char) : Written c (escape c) := by
  unfold escape escape?
  split_ifs with hquote hslash hfeed hreturn htab hback hform hlow
  · exact .letter (by simp [hquote])
  · exact .letter (by simp [hslash])
  · exact .letter (by simp [hfeed])
  · exact .letter (by simp [hreturn])
  · exact .letter (by simp [htab])
  · exact .letter (by simp [eq_ofNat_of_toNat hback])
  · exact .letter (by simp [eq_ofNat_of_toNat hform])
  · exact .code hlow
  · exact .plain hquote hslash (by omega)

/-! ## Reading a character -/

theorem hexValue?_hexDigit : ∀ n < 16, hexValue? (hexDigit n) = some n := by
  decide

theorem utf8Size_hexDigit : ∀ n < 16, (hexDigit n).utf8Size = 1 := by
  decide

/-- The four digits of the code of a control character are read as the code. -/
theorem takeUnit_code (h : c.toNat < 32) (m : Mark) (r : List Char) :
    ∃ m', takeUnit ⟨m, '0' :: '0' :: hexDigit (c.toNat / 16) :: hexDigit (c.toNat % 16) :: r⟩ =
      .ok (c.toNat, ⟨m', r⟩) := by
  have hhigh : c.toNat / 16 < 16 := by omega
  have hlow : c.toNat % 16 < 16 := by omega
  have hvalue : 16 * (c.toNat / 16) + c.toNat % 16 = c.toNat := by omega
  have hzero : hexValue? '0' = some 0 := by decide
  have hsize : '0'.utf8Size = 1 := by decide
  refine ⟨m.afterAll ['0', '0', hexDigit (c.toNat / 16), hexDigit (c.toNat % 16)], ?_⟩
  simp [takeUnit, Input.drop, hexValue?_hexDigit _ hhigh, hexValue?_hexDigit _ hlow, hzero, hsize,
    utf8Size_hexDigit _ hhigh, utf8Size_hexDigit _ hlow, hvalue]

/-- Behind a backslash the rest of a written character is read as the character. -/
theorem takeEscape_of_written (h : Written c ('\\' :: w)) (m : Mark) (r : List Char) :
    ∃ m', takeEscape ⟨m, w ++ r⟩ = .ok (.ok c, ⟨m', r⟩) := by
  cases h with
  | plain _ hslash _ => exact absurd rfl hslash
  | letter hd =>
      simp only [List.mem_cons, Prod.mk.injEq, List.not_mem_nil, or_false] at hd
      rcases hd with ⟨rfl, rfl⟩ | ⟨rfl, rfl⟩ | ⟨rfl, rfl⟩ | ⟨rfl, rfl⟩ | ⟨rfl, rfl⟩ | ⟨rfl, rfl⟩ |
        ⟨rfl, rfl⟩ <;> exact ⟨_, rfl⟩
  | code hlow =>
      obtain ⟨m', hunit⟩ := takeUnit_code hlow (m.after 'u') r
      refine ⟨m', ?_⟩
      have hnot : ¬ (0xDC00 ≤ c.toNat ∧ c.toNat < 0xE000) := by omega
      have hnot' : ¬ (0xD800 ≤ c.toNat ∧ c.toNat < 0xDC00) := by omega
      simp only [takeEscape, takeUnicode, Input.advance, List.cons_append, List.nil_append, hunit]
      simp [bind, Except.bind, hnot, hnot', Char.ofNat_toNat, pure, Except.pure]

/-- A written character is read and put in front of what is read behind it. -/
theorem takeString_of_written (h : Written c w) (m : Mark) (r : List Char) :
    ∃ m', ∀ fuel, takeString (fuel + 1) ⟨m, w ++ r⟩ =
      (takeString fuel ⟨m', r⟩).map fun (s, i) => (prepend (.ok c) s, i) := by
  cases hw : w with
  | nil => rw [hw] at h; cases h
  | cons d w' =>
      rw [hw] at h
      by_cases hd : d = '\\'
      · subst hd
        obtain ⟨m', hescape⟩ := takeEscape_of_written h (m.after '\\') r
        refine ⟨m', fun fuel => ?_⟩
        have hquote : ¬ '\\' = '"' := by decide
        simp only [takeString, List.cons_append, Input.advance, if_neg hquote, if_true, hescape, bind,
          Except.bind]
        cases takeString fuel ⟨m', r⟩ <;> rfl
      · cases h with
        | plain hquote _ hhigh =>
            refine ⟨m.after c, fun fuel => ?_⟩
            have hlow : ¬ c.toNat < 32 := by omega
            simp only [takeString, List.cons_append, List.nil_append, Input.advance, if_neg hquote,
              if_neg hd, if_neg hlow]
            cases takeString fuel ⟨m.after c, r⟩ <;> rfl
        | letter _ => exact absurd rfl hd
        | code _ => exact absurd rfl hd

/-! ## Reading a text -/

theorem takeString_written (cs : List Char) (m : Mark) (r : List Char) :
    ∃ m', ∀ fuel, cs.length < fuel →
      takeString fuel ⟨m, cs.flatMap escape ++ '"' :: r⟩ = .ok (.ok cs, ⟨m', r⟩) := by
  induction cs generalizing m with
  | nil =>
      refine ⟨m.after '"', fun fuel hfuel => ?_⟩
      cases fuel with
      | zero => cases hfuel
      | succ fuel => rfl
  | cons c cs ih =>
      obtain ⟨m', hstep⟩ := takeString_of_written (written_escape c) m
        (cs.flatMap escape ++ '"' :: r)
      obtain ⟨m'', hrest⟩ := ih m'
      refine ⟨m'', fun fuel hfuel => ?_⟩
      cases fuel with
      | zero => cases hfuel
      | succ fuel =>
          rw [List.flatMap_cons, List.append_assoc, hstep,
            hrest fuel (Nat.lt_of_succ_lt_succ hfuel)]
          rfl

theorem length_le_of_flatMap_escape (cs : List Char) : cs.length ≤ (cs.flatMap escape).length := by
  induction cs with
  | nil => exact Nat.le_refl _
  | cons c cs ih =>
      have hpos : 0 < (escape c).length := by
        cases hw : escape c with
        | nil => exact nomatch hw ▸ written_escape c
        | cons => exact Nat.succ_pos _
      simp only [List.flatMap_cons, List.length_append, List.length_cons]
      omega

/-- A quoted text reads back as the text, and the reading ends behind it. -/
theorem takeQuoted_quote (s : String) (m : Mark) (r : List Char) :
    ∃ m', takeQuoted ⟨m, quote s ++ r⟩ = .ok (.ok s.toList, ⟨m', r⟩) := by
  obtain ⟨m', h⟩ := takeString_written s.toList (m.after '"') r
  refine ⟨m', ?_⟩
  have hfuel := length_le_of_flatMap_escape s.toList
  have hadvance : Input.advance ⟨m, quote s ++ r⟩ =
      ⟨m.after '"', s.toList.flatMap escape ++ '"' :: r⟩ := by
    simp [Input.advance, quote]
  rw [takeQuoted, hadvance]
  exact h _ (by simp only [quote, List.cons_append, List.append_assoc, List.length_cons,
    List.length_append]; omega)

theorem quote_append_inj (h : quote s ++ r = quote s' ++ r') : s = s' ∧ r = r' := by
  obtain ⟨m, hread⟩ := takeQuoted_quote s ⟨1, 0⟩ r
  obtain ⟨m', hread'⟩ := takeQuoted_quote s' ⟨1, 0⟩ r'
  rw [h, hread'] at hread
  simp only [Except.ok.injEq, Prod.mk.injEq, Input.mk.injEq, String.toList_inj] at hread
  exact ⟨hread.1.symm, hread.2.2.symm⟩

end GraphRest.Json
