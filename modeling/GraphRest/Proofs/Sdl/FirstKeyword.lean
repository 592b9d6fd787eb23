import GraphRest.Sdl.TypeGraph
import Mathlib.Data.List.TakeDrop

/-!
# The keyword of the first definition

Every lexeme of a source is an end of the source. The first lexeme of a source that is read is the keyword
of its first definition, or a description with the keyword behind it.
-/

namespace GraphRest.Sdl

variable {s rest : List Char}

/-! ## What a token leaves -/

theorem suffix_span {p : Char → Bool} {ds : List Char} (h : s.span p = (ds, rest)) : rest <:+ s := by
  rw [List.span_eq_takeWhile_dropWhile, Prod.mk.injEq] at h
  exact h.2 ▸ List.dropWhile_suffix p

theorem suffix_cons_of_suffix {c : Char} (h : rest <:+ s) : rest <:+ c :: s :=
  h.trans (List.suffix_cons c s)

theorem takeUnit_suffix {n : Nat} (h : takeUnit s = some (n, rest)) : rest <:+ s := by
  rw [takeUnit] at h
  split at h
  · obtain ⟨m, -, hm⟩ := Option.map_eq_some_iff.1 h
    obtain ⟨-, rfl⟩ := Prod.mk.inj hm
    exact List.drop_suffix 4 s
  · cases h

theorem takeCodePoint_suffix {c : Char} (h : takeCodePoint s = some (c, rest)) : rest <:+ s := by
  unfold takeCodePoint at h
  split at h
  · split at h
    · rename_i hspan
      simp only [Option.bind_eq_bind, Option.bind_eq_some_iff, Option.pure_def, Option.some.injEq,
        Prod.mk.injEq] at h
      obtain ⟨-, -, -, -, -, rfl⟩ := h
      exact suffix_cons_of_suffix ((List.suffix_cons _ _).trans (suffix_span hspan))
    · cases h
  · simp only [Option.bind_eq_bind, Option.bind_eq_some_iff, Prod.exists] at h
    obtain ⟨n, s', hunit, h⟩ := h
    have hs' := takeUnit_suffix hunit
    split at h
    · split at h
      · simp only [Option.bind_eq_some_iff, Prod.exists] at h
        obtain ⟨m, s'', hlow, h⟩ := h
        have hs'' := takeUnit_suffix hlow
        split at h
        · simp only [Option.bind_eq_some_iff, Option.pure_def, Option.some.injEq, Prod.mk.injEq] at h
          obtain ⟨-, -, -, rfl⟩ := h
          exact (suffix_cons_of_suffix (suffix_cons_of_suffix hs'')).trans hs'
        · cases h
      · cases h
    · simp only [Option.bind_eq_some_iff, Option.pure_def, Option.some.injEq, Prod.mk.injEq] at h
      obtain ⟨-, -, -, rfl⟩ := h
      exact hs'

theorem takeQuoted_suffix : ∀ {fuel : Nat} {s t rest : List Char},
    takeQuoted fuel s = some (t, rest) → rest <:+ s
  | 0, _, _, _, h => by cases h
  | _ + 1, [], _, _, h => by cases h
  | fuel + 1, c :: s, t, rest, h => by
    unfold takeQuoted at h
    split at h
    · cases h
      exact List.suffix_cons c _
    · split at h
      · cases h
      · split at h
        · split at h
          · cases h
          · rename_i e s'
            have htail : s' <:+ c :: e :: s' := ⟨[c, e], rfl⟩
            split at h
            · obtain ⟨⟨t', r⟩, hr, hrest⟩ := Option.map_eq_some_iff.1 h
              obtain ⟨-, rfl⟩ := Prod.mk.inj hrest
              exact (takeQuoted_suffix hr).trans htail
            · split at h
              · simp only [Option.bind_eq_bind, Option.bind_eq_some_iff, Prod.exists,
                  Option.map_eq_some_iff, Prod.mk.injEq] at h
                obtain ⟨d, s'', hcode, t', r, hr, -, rfl⟩ := h
                exact ((takeQuoted_suffix hr).trans (takeCodePoint_suffix hcode)).trans htail
              · cases h
        · obtain ⟨⟨t', r⟩, hr, hrest⟩ := Option.map_eq_some_iff.1 h
          obtain ⟨-, rfl⟩ := Prod.mk.inj hrest
          exact suffix_cons_of_suffix (takeQuoted_suffix hr)

theorem takeBlock_suffix {t : List Char} (h : takeBlock s = some (t, rest)) : rest <:+ s := by
  induction s using takeBlock.induct generalizing t with
  | case1 => cases h
  | case2 s =>
      rw [takeBlock] at h
      obtain ⟨-, rfl⟩ := Prod.mk.inj (Option.some.inj h)
      exact ⟨['"', '"', '"'], rfl⟩
  | case3 s ih =>
      rw [takeBlock] at h
      obtain ⟨⟨t', r⟩, hr, hrest⟩ := Option.map_eq_some_iff.1 h
      obtain ⟨-, rfl⟩ := Prod.mk.inj hrest
      exact (ih hr).trans ⟨['\\', '"', '"', '"'], rfl⟩
  | case4 c s hmarks hescape ih =>
      rw [takeBlock] at h
      · obtain ⟨⟨t', r⟩, hr, hrest⟩ := Option.map_eq_some_iff.1 h
        obtain ⟨-, rfl⟩ := Prod.mk.inj hrest
        exact suffix_cons_of_suffix (ih hr)
      · exact hmarks
      · exact hescape

theorem takeFraction_suffix {t : List Char} (h : takeFraction s = some (t, rest)) : rest <:+ s := by
  unfold takeFraction at h
  split at h
  · split at h
    · cases h
    · rename_i hspan
      obtain ⟨-, rfl⟩ := Prod.mk.inj (Option.some.inj h)
      exact suffix_cons_of_suffix (suffix_span hspan)
  · obtain ⟨-, rfl⟩ := Prod.mk.inj (Option.some.inj h)
    exact List.suffix_refl _

theorem takeExponent_suffix {t : List Char} (h : takeExponent s = some (t, rest)) : rest <:+ s := by
  unfold takeExponent at h
  split at h
  · split at h
    · simp only at h
      split at h
      · cases h
      · rename_i hspan
        obtain ⟨-, rfl⟩ := Prod.mk.inj (Option.some.inj h)
        refine suffix_cons_of_suffix ((suffix_span hspan).trans ?_)
        split
        · exact List.suffix_cons _ _
        · exact List.suffix_cons _ _
        · exact List.suffix_refl _
    · obtain ⟨-, rfl⟩ := Prod.mk.inj (Option.some.inj h)
      exact List.suffix_refl _
  · obtain ⟨-, rfl⟩ := Prod.mk.inj (Option.some.inj h)
    exact List.suffix_refl _

theorem takeNumber_suffix {t : Token} (h : takeNumber s = some (t, rest)) : rest <:+ s := by
  unfold takeNumber at h
  simp only at h
  -- With a sign and without one, the digits are read off the same way.
  split at h
  all_goals
    simp only [Option.ite_none_left_eq_some, Option.bind_eq_bind, Option.bind_eq_some_iff,
      Prod.exists] at h
    obtain ⟨-, fraction, s', hfraction, exponent, s'', hexponent, h⟩ := h
    split at h
    · cases h
    · obtain ⟨-, rfl⟩ := Prod.mk.inj (Option.some.inj h)
      have hdigits := (takeExponent_suffix hexponent).trans (takeFraction_suffix hfraction)
      first
        | exact hdigits.trans (suffix_span rfl)
        | exact suffix_cons_of_suffix (hdigits.trans (suffix_span rfl))

theorem takeToken_suffix {t : Token} (h : takeToken s = some (t, rest)) : rest <:+ s := by
  unfold takeToken at h
  split at h
  · obtain ⟨-, rfl⟩ := Prod.mk.inj (Option.some.inj h)
    exact ⟨['.', '.', '.'], rfl⟩
  · obtain ⟨⟨b, r⟩, hblock, hrest⟩ := Option.map_eq_some_iff.1 h
    obtain ⟨-, rfl⟩ := Prod.mk.inj hrest
    exact (takeBlock_suffix hblock).trans ⟨['"', '"', '"'], rfl⟩
  · obtain ⟨⟨q, r⟩, hquoted, hrest⟩ := Option.map_eq_some_iff.1 h
    obtain ⟨-, rfl⟩ := Prod.mk.inj hrest
    exact suffix_cons_of_suffix (takeQuoted_suffix hquoted)
  · split at h
    · obtain ⟨-, rfl⟩ := Prod.mk.inj (Option.some.inj h)
      exact List.suffix_cons _ _
    · split at h
      · obtain ⟨-, rfl⟩ := Prod.mk.inj (Option.some.inj h)
        exact suffix_cons_of_suffix (List.dropWhile_suffix _)
      · split at h
        · exact takeNumber_suffix h
        · cases h
  · cases h

/-! ## Lexemes -/

theorem suffix_of_mem_cut : ∀ {fuel : Nat} {s : List Char} {ls : List Lexeme}, cut fuel s = some ls →
    ∀ l ∈ ls, l.source <:+ s
  | 0, [], _, h => by cases h; exact nofun
  | _ + 1, [], _, h => by cases h; exact nofun
  | 0, _ :: _, _, h => by cases h
  | fuel + 1, c :: s, ls, h => by
    rw [cut] at h
    split at h
    · exact fun l hl => suffix_cons_of_suffix (suffix_of_mem_cut h l hl)
    · split at h
      · exact fun l hl => suffix_cons_of_suffix
          ((suffix_of_mem_cut h l hl).trans (List.dropWhile_suffix _))
      · simp only [Option.bind_eq_bind, Option.bind_eq_some_iff, Prod.exists, Option.pure_def,
          Option.some.injEq] at h
        obtain ⟨t, r, htoken, ls', hcut, rfl⟩ := h
        intro l hl
        rcases List.mem_cons.1 hl with rfl | hl
        · exact List.suffix_refl _
        · exact (suffix_of_mem_cut hcut l hl).trans (takeToken_suffix htoken)

theorem takeNumber_ne_name {n : String} : takeNumber s ≠ some (.name n, rest) := by
  intro h
  unfold takeNumber at h
  simp only at h
  split at h
  all_goals
    simp only [Option.ite_none_left_eq_some, Option.bind_eq_bind, Option.bind_eq_some_iff,
      Prod.exists] at h
    obtain ⟨-, fraction, s', -, exponent, s'', -, h⟩ := h
    split at h
    · cases h
    · have htoken := (Prod.mk.inj (Option.some.inj h)).1
      split at htoken <;> cases htoken

/-- A name is read off a source that starts with a character that names start with. -/
theorem startsName_of_takeToken {n : String} (h : takeToken s = some (.name n, rest)) :
    ∃ c s', s = c :: s' ∧ startsName c = true := by
  unfold takeToken at h
  split at h
  · cases h
  · obtain ⟨_, -, h⟩ := Option.map_eq_some_iff.1 h
    cases h
  · obtain ⟨_, -, h⟩ := Option.map_eq_some_iff.1 h
    cases h
  · split at h
    · cases h
    · split at h
      · exact ⟨_, _, rfl, by assumption⟩
      · split at h
        · exact absurd h takeNumber_ne_name
        · cases h
  · cases h

theorem startsName_of_mem_cut {n : String} : ∀ {fuel : Nat} {s : List Char} {ls : List Lexeme},
    cut fuel s = some ls → ∀ l ∈ ls, l.token = .name n →
      ∃ c s', l.source = c :: s' ∧ startsName c = true
  | 0, [], _, h => by cases h; exact nofun
  | _ + 1, [], _, h => by cases h; exact nofun
  | 0, _ :: _, _, h => by cases h
  | fuel + 1, c :: s, ls, h => by
    rw [cut] at h
    split at h
    · exact startsName_of_mem_cut h
    · split at h
      · exact startsName_of_mem_cut h
      · simp only [Option.bind_eq_bind, Option.bind_eq_some_iff, Prod.exists, Option.pure_def,
          Option.some.injEq] at h
        obtain ⟨t, r, htoken, ls', hcut, rfl⟩ := h
        intro l hl hname
        rcases List.mem_cons.1 hl with rfl | hl
        · obtain rfl : t = .name n := hname
          exact startsName_of_takeToken htoken
        · exact startsName_of_mem_cut hcut l hl hname

/-! ## The first definition -/

/-- The lexeme with which the first definition starts behind its description. -/
def keyword? : List Lexeme → Option Lexeme
  | ⟨.string _, _⟩ :: l :: _ => some l
  | l :: _ => some l
  | [] => none

/-- The position in a source at which the keyword of its first definition starts. -/
def keywordPosition? (source : List Char) : Option Nat :=
  (lexemes? source).bind fun ls => (keyword? ls).map fun l => source.length - l.source.length

theorem name_of_typeDefinition {d : Option String} {ts : List Token} {x : TypeDefinition × List Token}
    (h : Reader.typeDefinition d ts = some x) : ∃ n ts', ts = .name n :: ts' := by
  unfold Reader.typeDefinition at h
  split at h
  all_goals first | exact ⟨_, _, rfl⟩ | cases h

/-- A definition starts with a name, perhaps behind a description. -/
theorem name_of_definition {ts : List Token} {x : Definition × List Token}
    (h : Reader.definition ts = some x) :
    (∃ n ts', ts = .name n :: ts') ∨ ∃ d n ts', ts = .string d :: .name n :: ts' := by
  unfold Reader.definition at h
  split at h
  · exact .inl ⟨_, _, rfl⟩
  · have hname : ∃ n ts', (Reader.description ts).2 = .name n :: ts' := by
      simp only at h
      split at h
      · exact ⟨_, _, by assumption⟩
      · exact ⟨_, _, by assumption⟩
      · obtain ⟨_, htype, -⟩ := Option.map_eq_some_iff.1 h
        exact name_of_typeDefinition htype
    obtain ⟨n, ts', hname⟩ := hname
    unfold Reader.description at hname
    split at hname
    · exact .inr ⟨_, _, _, congrArg _ hname⟩
    · exact .inl ⟨_, _, hname⟩

theorem exists_definition_of_definitions? {ts : List Token} {ds : List Definition}
    (h : definitions? ts = some ds) : ∃ x, Reader.definition ts = some x := by
  cases ts with
  | nil => cases h
  | cons t ts =>
      simp only [definitions?, Reader.many, List.isEmpty_cons, Bool.not_false, if_true,
        List.length_cons, Reader.whileAhead, Bool.false_eq_true, if_false] at h
      cases hx : Reader.definition (t :: ts) with
      | none => simp [hx] at h
      | some x => exact ⟨x, rfl⟩

/-- Behind the characters in front of it stands what a lexeme starts with. -/
theorem drop_position {before : List Char} (h : before ++ rest = s) :
    s.take (s.length - rest.length) = before ∧ s.drop (s.length - rest.length) = rest := by
  have hlength : s.length - rest.length = before.length := by
    rw [← h, List.length_append, Nat.add_sub_cancel]
  rw [hlength, ← h]
  exact ⟨List.take_left, List.drop_left⟩

/-- A source that is read has a keyword, and from there on it starts with a character of names. -/
theorem exists_keywordPosition {g : TypeGraph} (h : TypeGraph.ofSource? s = some g) :
    ∃ k c s', keywordPosition? s = some k ∧ s.drop k = c :: s' ∧ startsName c = true := by
  rw [TypeGraph.ofSource?] at h
  simp only [Option.bind_eq_bind, Option.bind_eq_some_iff] at h
  obtain ⟨ls, hls, ds, hds, -⟩ := h
  obtain ⟨x, hx⟩ := exists_definition_of_definitions? hds
  obtain ⟨l, hkeyword, hmem, n, hn⟩ :
      ∃ l, keyword? ls = some l ∧ l ∈ ls ∧ ∃ n, l.token = .name n := by
    match ls, name_of_definition hx with
    | [], .inl ⟨_, _, h⟩ => cases h
    | [], .inr ⟨_, _, _, h⟩ => cases h
    | ⟨t, source⟩ :: ls, .inl ⟨n, _, h⟩ =>
        obtain rfl : t = .name n := (List.cons.inj h).1
        exact ⟨_, rfl, List.mem_cons_self, n, rfl⟩
    | [_], .inr ⟨_, _, _, h⟩ => cases (List.cons.inj h).2
    | ⟨t, source⟩ :: l :: ls, .inr ⟨d, n, _, h⟩ =>
        obtain rfl : t = .string d := (List.cons.inj h).1
        have hn : l.token = .name n := (List.cons.inj (List.cons.inj h).2).1
        exact ⟨_, rfl, List.mem_cons_of_mem _ List.mem_cons_self, n, hn⟩
  obtain ⟨before, hbefore⟩ := suffix_of_mem_cut hls l hmem
  obtain ⟨c, s', hs, hc⟩ := startsName_of_mem_cut hls l hmem hn
  exact ⟨_, c, s', by rw [keywordPosition?, hls, Option.bind_some, hkeyword, Option.map_some],
    (drop_position hbefore).2.trans hs, hc⟩

end GraphRest.Sdl
