import Mathlib.Tactic.Common
import SearchFilter.Command.Run
import SearchFilter.Proofs.Filter.Limit
import SearchFilter.Proofs.Octets.Hex

namespace SearchFilter.Run

variable {files : Files} {c : Config} {format : OutputFormat} {log : List LogLine}
  {text digits out : String}

/-- The log takes no part in how a filter is read. -/
theorem filterText_eq_ok_iff (log : List LogLine) {limit : Option Nat} {f : Filter} :
    (∃ log', filterText limit text log = .ok f log') ↔ Filter.parseLimited limit text = .ok f := by
  unfold filterText
  cases Filter.parseLimited limit text with
  | ok g =>
    constructor
    · rintro ⟨_, ⟨⟩⟩
      rfl
    · rintro ⟨⟩
      exact ⟨_, rfl⟩
  | error fault =>
    constructor
    · rintro ⟨_, h⟩
      cases fault <;> cases h
    · nofun

theorem octets_eq_ok_iff {bs : Octets} {log' : List LogLine} :
    octets digits log = .ok bs log' ↔
      Hex.decode (Utf8.encodeChars (digits.toList.filter (!Blank.contains ·))) = .ok bs ∧ log = log' := by
  unfold octets
  cases Hex.decode (Utf8.encodeChars (digits.toList.filter (!Blank.contains ·))) with
  | ok bs' =>
    constructor
    · rintro ⟨⟩
      exact ⟨rfl, rfl⟩
    · rintro ⟨⟨⟩, rfl⟩
      rfl
  | error fault =>
    constructor
    · nofun
    · nofun

/-- An encoding is read under the limit alone. -/
theorem filterBer_eq_ok_iff (log : List LogLine) {limit : Option Nat} {data : Octets} {f : Filter} :
    (∃ log', filterBer limit data log = .ok f log') ↔ Filter.ofBerLimited limit data = .ok f := by
  unfold filterBer
  cases Filter.ofBerLimited limit data with
  | ok g =>
    constructor
    · rintro ⟨_, ⟨⟩⟩
      rfl
    · rintro ⟨⟩
      exact ⟨_, rfl⟩
  | error e =>
    constructor
    · nofun
    · nofun

/-- The command for texts succeeds where the text is a filter within the limit, and prints that
filter. -/
theorem command_parse_eq_ok_iff :
    (∃ log', command files c format (.parse text) log = .ok (0, out) log') ↔
      ∃ f, Filter.parseLimited c.maxDepth text = .ok f ∧ out = printed format f := by
  simp only [← filterText_eq_ok_iff log, command, EStateM.bind_eq_ok_iff]
  constructor
  · rintro ⟨_, f, _, hf, ⟨⟩⟩
    exact ⟨f, ⟨_, hf⟩, rfl⟩
  · rintro ⟨f, ⟨log', hf⟩, rfl⟩
    exact ⟨log', f, log', hf, rfl⟩

/-- The command for digits succeeds where they stand for the encoding of a filter within the limit,
and prints that filter. -/
theorem command_decode_eq_ok_iff :
    (∃ log', command files c format (.decode digits) log = .ok (0, out) log') ↔
      ∃ bs, Hex.decode (Utf8.encodeChars (digits.toList.filter (!Blank.contains ·))) = .ok bs ∧
        ∃ f, Filter.ofBerLimited c.maxDepth bs = .ok f ∧ out = printed format f := by
  simp only [← filterBer_eq_ok_iff log, command, EStateM.bind_eq_ok_iff, octets_eq_ok_iff]
  constructor
  · rintro ⟨_, bs, _, ⟨hbs, rfl⟩, f, _, hf, ⟨⟩⟩
    exact ⟨bs, hbs, f, ⟨_, hf⟩, rfl⟩
  · rintro ⟨bs, hbs, f, ⟨log', hf⟩, rfl⟩
    exact ⟨log', bs, log, ⟨hbs, rfl⟩, f, log', hf, rfl⟩

/-- Whether the settings of a run come out as these. -/
def Configured (files : Files) (path : Option String) (c : Config) : Prop :=
  ∃ log, config files path [] = .ok c log

theorem configured_some_iff {path : String} : Configured files (some path) c ↔
    ∃ content, files path = .ok content ∧ Config.ofText? content = some c := by
  simp only [Configured, config, file, EStateM.bind_eq_ok_iff]
  constructor
  · rintro ⟨_, _, _, _, content, _, hfile, hsettings⟩
    cases hcontent : files path with
    | error fault =>
      rw [hcontent] at hfile
      cases hfile
    | ok content' =>
      rw [hcontent] at hfile
      cases hfile
      cases hc : Config.ofText? content with
      | none =>
        rw [hc] at hsettings
        cases hsettings
      | some c' =>
        rw [hc] at hsettings
        cases hsettings
        exact ⟨content, rfl, hc⟩
  · rintro ⟨content, hcontent, hc⟩
    rw [hcontent]
    exact ⟨_, (), _, rfl, content, _, rfl, by rw [hc]; rfl⟩

/-- Whether a run succeeds and prints this, where its arguments or its configuration ask for this
format. -/
def Prints (files : Files) (i : Invocation) (format : OutputFormat) (out : String) : Prop :=
  (∃ c, Configured files i.config c ∧ i.output.getD c.output = format) ∧
    ∃ log, invocation files i [] = .ok (0, out) log

/-- A command that comes out the same on every log can be run without the log of the configuration. -/
theorem prints_iff {i : Invocation} {P : Config → Prop}
    (hrun : ∀ c log, (∃ log', command files c format i.command log = .ok (0, out) log') ↔ P c) :
    Prints files i format out ↔ ∃ c, Configured files i.config c ∧ i.output.getD c.output = format ∧ P c := by
  simp only [Prints, Configured, invocation, EStateM.bind_eq_ok_iff]
  constructor
  · rintro ⟨⟨c, ⟨log, hc⟩, rfl⟩, log', _, _, hc', hcommand⟩
    rw [hc] at hc'
    cases hc'
    exact ⟨c, ⟨log, hc⟩, rfl, (hrun c log).1 ⟨log', hcommand⟩⟩
  · rintro ⟨c, ⟨log, hc⟩, rfl, hP⟩
    obtain ⟨log', hcommand⟩ := (hrun c log).2 hP
    exact ⟨⟨c, ⟨log, hc⟩, rfl⟩, log', c, log, hc, hcommand⟩

variable {path : Option String} {output : Option OutputFormat} {debug : Bool}

/-- A run on a text prints the filter that the text is, under the limit of its configuration. -/
theorem prints_parse_iff : Prints files ⟨path, output, debug, .parse text⟩ format out ↔
    ∃ c, Configured files path c ∧ output.getD c.output = format ∧
      ∃ f, Filter.parseLimited c.maxDepth text = .ok f ∧ out = printed format f :=
  prints_iff fun _ _ => command_parse_eq_ok_iff

/-- A run on digits prints the filter that they encode, under the limit of its configuration. -/
theorem prints_decode_iff : Prints files ⟨path, output, debug, .decode digits⟩ format out ↔
    ∃ c, Configured files path c ∧ output.getD c.output = format ∧
      ∃ bs, Hex.decode (Utf8.encodeChars (digits.toList.filter (!Blank.contains ·))) = .ok bs ∧
        ∃ f, Filter.ofBerLimited c.maxDepth bs = .ok f ∧ out = printed format f :=
  prints_iff fun _ _ => command_decode_eq_ok_iff

/-- The files leave no choice of settings. -/
theorem Configured.unique {c' : Config} (h : Configured files path c) (h' : Configured files path c') :
    c = c' := by
  obtain ⟨log, h⟩ := h
  obtain ⟨log', h'⟩ := h'
  rw [h] at h'
  cases h'
  rfl

/-- The substring views are shown only in the projection. -/
theorem printed_withoutView (hformat : format ≠ .json) (f : Filter) :
    printed format f.withoutView = printed format f := by
  cases format with
  | text => rw [printed, printed, Filter.render, Filter.chars_withoutView, ← Filter.render]
  | ber => rw [printed, printed, Filter.toBer_withoutView]
  | json => exact absurd rfl hformat

/-- A filter that is printed as octets can be read from them, however the digits are spelled: under the
same configuration the run succeeds, and it prints in either format of the input what the run on the
text prints. The text that is printed is printed again where it is read. -/
theorem input_formats_agree {i : Invocation} {text digits hex : String} {output : Option OutputFormat}
    (hparse : Prints files { i with output, command := .parse text } .ber (digits ++ "\n"))
    (hsize : digits.toList.length < 2 * 2 ^ 32) (hhex : Hex.Respelled digits.toList hex.toList) :
    (∀ output, ∃ format out, Prints files { i with output, command := .decode hex } format out) ∧
    (∀ output format out, format ≠ .json →
      (Prints files { i with output, command := .decode hex } format out ↔
        Prints files { i with output, command := .parse text } format out)) ∧
    ∀ output out, Prints files { i with output, command := .parse text } .text out →
      ∃ line, out = line ++ "\n" ∧
        Prints files { i with output, command := .parse line } .text (line ++ "\n") := by
  obtain ⟨c, hc, _, f, hf, hdigits⟩ := prints_parse_iff.1 hparse
  have hencoded : digits.toList = Hex.encode f.toBer := by
    have hlist := congrArg String.toList hdigits
    simpa [printed] using hlist
  rw [hencoded] at hsize hhex
  rw [Hex.length_encode] at hsize
  have hread := Filter.ofBerLimited_toBer hf (by omega)
  have hdecode := Hex.decode_of_respelled hhex
  refine ⟨?_, ?_, ?_⟩
  · intro output
    exact ⟨_, _, prints_decode_iff.2 ⟨c, hc, rfl, _, hdecode, _, hread, rfl⟩⟩
  · intro output format out hformat
    rw [prints_decode_iff, prints_parse_iff]
    constructor
    · rintro ⟨c', hc', houtput, bs, hbs, g, hg, rfl⟩
      obtain rfl := hc.unique hc'
      obtain rfl := Except.ok.inj (hdecode.symm.trans hbs)
      obtain rfl := Except.ok.inj (hread.symm.trans hg)
      exact ⟨c, hc, houtput, f, hf, printed_withoutView hformat f⟩
    · rintro ⟨c', hc', houtput, g, hg, rfl⟩
      obtain rfl := hc.unique hc'
      obtain rfl := Except.ok.inj (hf.symm.trans hg)
      exact ⟨c, hc, houtput, _, hdecode, _, hread, (printed_withoutView hformat f).symm⟩
  · intro output out htext
    obtain ⟨c', hc', houtput, g, hg, rfl⟩ := prints_parse_iff.1 htext
    have hprinted : printed .text g.withoutView = printed .text g := printed_withoutView (by simp) g
    exact ⟨g.render, rfl, prints_parse_iff.2
      ⟨c', hc', houtput, _, Filter.parseLimited_render hg, hprinted.symm⟩⟩

/-- A file that sets a limit, and no other. -/
def limitFile : Files
  | "limit.yaml" => .ok "max_depth: 2\n"
  | _ => .error .missing

theorem configured_limitFile :
    Configured limitFile (some "limit.yaml") { Config.default with maxDepth := some 2 } :=
  configured_some_iff.2 ⟨_, rfl, by decide +kernel⟩

/-- A run under that limit. -/
def limitedRun : Invocation :=
  { config := some "limit.yaml", output := none, debug := false, command := .parse "&(c=\\2a)(s:=x*)" }

/-- The filter it reads, one leaf of which has a substring view. -/
def viewedFilter : Filter :=
  .and [.comparison .equal "c" [0x2A], .leaf (.extensible
    { matchType := some "s", rule := none, value := [0x78, 0x2A], dnAttributes := false,
      substrings := some { initial := some [0x78], any := [], final := none } })]

/-- The digits that it prints. -/
def writtenDigits : String :=
  "a011a30604016304012aa9078201738302782a"

/-- The same digits in upper case, with white space between and around them. -/
def spacedDigits : String :=
  "A0 11\tA3060401630401 2aA907\n8201738302782a"

/-- The wildcard is printed as part of the value, so the text that is printed has no view. -/
theorem limitedRun_agrees :
    Prints limitFile { limitedRun with output := some .ber } .ber (writtenDigits ++ "\n") ∧
    Hex.Respelled writtenDigits.toList spacedDigits.toList ∧
    Prints limitFile limitedRun .text "(&(c=\\2a)(s:=x\\2a))\n" ∧
    Prints limitFile { limitedRun with command := .decode spacedDigits } .text
      "(&(c=\\2a)(s:=x\\2a))\n" := by
  have hread : Filter.parseLimited (some 2) "&(c=\\2a)(s:=x*)" = .ok viewedFilter :=
    Filter.parseLimited_eq_ok_iff.2 ⟨by cbv, by decide +kernel⟩
  have hber : Prints limitFile { limitedRun with output := some .ber } .ber (writtenDigits ++ "\n") :=
    prints_parse_iff.2 ⟨_, configured_limitFile, rfl, _, hread, by decide +kernel⟩
  have htext : Prints limitFile limitedRun .text "(&(c=\\2a)(s:=x\\2a))\n" :=
    prints_parse_iff.2 ⟨_, configured_limitFile, rfl, _, hread, by decide +kernel⟩
  have hhex : Hex.Respelled writtenDigits.toList spacedDigits.toList := by
    have hdigits : writtenDigits.toList = Hex.encode viewedFilter.toBer := by decide +kernel
    rw [hdigits, Hex.respelled_iff fun c => Hex.exists_value?_of_mem_encode]
    decide +kernel
  obtain ⟨_, hagree, _⟩ := input_formats_agree hber (by decide +kernel) hhex
  exact ⟨hber, hhex, htext, (hagree none .text _ (by decide)).2 htext⟩

end SearchFilter.Run
