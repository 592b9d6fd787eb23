import GraphRest.Command.Run
import GraphRest.Proofs.Command.FileSystem

/-!
# What a run leaves in its files

A run changes no file but those of its log until the conversion is done. Then it writes the document, and no other
file after that. Each part of a run says what it leaves; the run puts the parts together. What the log does to its own
files, and when, has no part in it.
-/

namespace GraphRest

namespace Command

namespace FileSystem

variable {σ κ : Type} {fs : FileSystem σ κ} {L M : κ → Prop} {s : Settings} {st mid st' : σ}

/-! ## The log -/

/-- A path was read with a text when only log files can have been changed. Unless it leads to one of these, the
text is what the file held before. -/
structure ReadAs (fs : FileSystem σ κ) (L : κ → Prop) (st : σ) (path text : String) : Prop where
  answered : ∃ mid mid', fs.Keeps L st mid ∧ (fs.host.readText path).run mid = (.ok text, mid')
  held : ¬ L (fs.fileOf path) → fs.text? st (fs.fileOf path) = some text

variable {path text schema source : String} {table : SortedMap String} {c : Conversion} {options : Options}

theorem ReadAs.before (h : fs.ReadAs L mid path text) (hkeeps : fs.Keeps L st mid) :
    fs.ReadAs L st path text := by
  obtain ⟨⟨start, start', hstart, hread⟩, hheld⟩ := h
  exact ⟨⟨start, start', hkeeps.trans hstart, hread⟩,
    fun hlog => (hkeeps.same _ hlog).symm.trans (hheld hlog)⟩

theorem ReadAs.mono (h : fs.ReadAs L st path text) (hLM : ∀ k, L k → M k) : fs.ReadAs M st path text := by
  obtain ⟨⟨start, start', hstart, hread⟩, hheld⟩ := h
  exact ⟨⟨start, start', hstart.mono hLM, hread⟩, fun hlog => hheld fun hk => hlog (hLM _ hk)⟩

end FileSystem

/-- The table of suffixes that settings name, where files are read with certain texts; without one it is empty. -/
def TableOf (reads : String → String → Prop) (s : Settings) (table : SortedMap String) : Prop :=
  match s.customPlurals with
  | none => table = .empty
  | some path => ∃ text, reads path text ∧ suffixTableOfText text = .ok table

/-- A conversion is the one of the schema that settings name, under their options with the table of suffixes
over the custom ones. -/
def Converts (reads : String → String → Prop) (s : Settings) (c : Conversion) : Prop :=
  ∃ schema source table custom, s.schema = some schema ∧ reads schema source ∧ TableOf reads s table ∧
    (∀ ending, custom.get? ending = (table.get? ending).or (s.options.inflection.custom.get? ending)) ∧
    convert? { s.options with inflection := { s.options.inflection with custom } } source = some c

section Converts

variable {reads reads' : String → String → Prop} {s : Settings} {schema source : String}
  {table : SortedMap String} {c : Conversion}

theorem TableOf.mono (h : TableOf reads s table) (hreads : ∀ path text, reads path text → reads' path text) :
    TableOf reads' s table := by
  cases hpath : s.customPlurals with
  | none =>
      rw [TableOf, hpath] at h ⊢
      exact h
  | some path =>
      rw [TableOf, hpath] at h ⊢
      obtain ⟨text, hread, htable⟩ := h
      exact ⟨text, hreads _ _ hread, htable⟩

theorem Converts.mono (h : Converts reads s c) (hreads : ∀ path text, reads path text → reads' path text) :
    Converts reads' s c := by
  obtain ⟨schema, source, table, custom, hs, hread, htable, hc⟩ := h
  exact ⟨schema, source, table, custom, hs, hreads _ _ hread, htable.mono hreads, hc⟩

end Converts

namespace FileSystem

variable {σ κ : Type} {fs : FileSystem σ κ} {L M : κ → Prop} {s : Settings} {st mid st' : σ}
  {K K' : Conversion → Prop}

/-- What the conversion of files comes to: it fails and changes nothing but log files, or it puts the document of a
conversion of some kind into the output file. -/
inductive Ended (fs : FileSystem σ κ) (L : κ → Prop) (s : Settings) (K : Conversion → Prop) (st st' : σ) :
    Except RunError Unit → Prop where
  | failed {e} : fs.Keeps L st st' → Ended fs L s K st st' (.error e)
  | delivered {c} : K c → fs.Puts L s.output (c.document.render s.format) st st' →
      Ended fs L s K st st' (.ok ())

variable {c : Conversion} {options : Options} {schema source : String} {result : Except RunError Unit}

theorem Ended.mono (h : fs.Ended L s K st st' result) (hK : ∀ c, K c → K' c) :
    fs.Ended L s K' st st' result := by
  cases h with
  | failed hkeeps => exact .failed hkeeps
  | delivered hc hputs => exact .delivered (hK _ hc) hputs

theorem Ended.before (h : fs.Ended L s K mid st' result) (hkeeps : fs.Keeps L st mid) :
    fs.Ended L s K st st' result := by
  cases h with
  | failed hrest => exact .failed (hkeeps.trans hrest)
  | delivered hc hputs => exact .delivered hc (hputs.before hkeeps)

theorem Ended.after (h : fs.Ended L s K st mid result)
    (hkeeps : (∀ k, fs.logs mid k → L k) → fs.Keeps L mid st') : fs.Ended L s K st st' result := by
  cases h with
  | failed hrest => exact .failed (hrest.trans (hkeeps hrest.logs))
  | delivered hc hputs => exact .delivered hc (hputs.after (hkeeps hputs.logs))

variable {i : Invocation} {o : Outcome}

end FileSystem

end Command

end GraphRest
