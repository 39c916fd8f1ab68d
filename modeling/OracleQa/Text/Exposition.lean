import OracleQa.Text.Encoding

/-! The text exposition format of metrics: three lines for each, of which the last one is the
sample; and a scraper that reads them back. -/

namespace OracleQa.Text

inductive MetricKind
  | counter
  | gauge
  deriving DecidableEq

structure Named (name help : List Char) : Prop where
  ne : name ≠ []
  chars : ∀ c ∈ name, c.isAlphanum = true ∨ c = '_'
  line : '\n' ∉ help

instance (name help : List Char) : Decidable (Named name help) :=
  decidable_of_iff (name ≠ [] ∧ (∀ c ∈ name, c.isAlphanum = true ∨ c = '_') ∧ '\n' ∉ help)
    ⟨fun h => ⟨h.1, h.2.1, h.2.2⟩, fun h => ⟨h.ne, h.chars, h.line⟩⟩

structure Metric where
  name : List Char
  help : List Char
  kind : MetricKind
  value : Nat
  named : Named name help
  deriving DecidableEq

def MetricKind.text : MetricKind → List Char
  | counter => "counter".toList
  | gauge => "gauge".toList

def MetricKind.read (cs : List Char) : Option MetricKind :=
  if cs = "counter".toList then some .counter
  else if cs = "gauge".toList then some .gauge
  else none

theorem MetricKind.read_text (k : MetricKind) : read k.text = some k := by
  cases k <;> decide

namespace Metric

def lines (m : Metric) : List (List Char) :=
  ["# HELP ".toList ++ (m.name ++ ' ' :: m.help),
    "# TYPE ".toList ++ (m.name ++ ' ' :: m.kind.text),
    m.name ++ ' ' :: m.value.repr.toList]

def render (ms : List Metric) : List Char := (ms.flatMap lines).flatMap fun l => l ++ ['\n']

theorem render_cons (m m' : Metric) (ms : List Metric) :
    render (m :: m' :: ms) = render [m] ++ render (m' :: ms) := by
  simp only [render, List.flatMap_cons, List.flatMap_nil, List.flatMap_append, List.append_nil]

theorem render_one (m : Metric) : render [m] =
    "# HELP ".toList ++ (m.name ++ ' ' :: (m.help ++ '\n' :: ("# TYPE ".toList ++
      (m.name ++ ' ' :: (m.kind.text ++ '\n' :: (m.name ++ ' ' ::
        (m.value.repr.toList ++ ['\n']))))))) := by
  simp only [render, lines, List.flatMap_cons, List.flatMap_nil, List.append_assoc,
    List.cons_append, List.nil_append, List.append_nil]

inductive Line
  | help (name text : List Char)
  | type (name : List Char) (kind : MetricKind)
  | sample (name : List Char) (value : Nat)

def word (cs : List Char) : List Char × List Char :=
  (cs.takeWhile (· ≠ ' '), (cs.dropWhile (· ≠ ' ')).tail)

def readNat (cs : List Char) : Option Nat :=
  if cs ≠ [] ∧ cs.all Char.isDigit then some (Nat.ofDigitChars 10 cs 0) else none

def readLine (cs : List Char) : Option Line :=
  match stripPrefix "# HELP ".toList cs with
  | some rest => some (.help (word rest).1 (word rest).2)
  | none =>
    match stripPrefix "# TYPE ".toList cs with
    | some rest => (MetricKind.read (word rest).2).map (.type (word rest).1)
    | none => (readNat (word cs).2).map (.sample (word cs).1)

def ofLines : List Line → Option (List Metric)
  | [] => some []
  | .help name help :: .type name₂ kind :: .sample name₃ value :: rest =>
    if h : (name = name₂ ∧ name = name₃) ∧ Named name help then
      (ofLines rest).map (⟨name, help, kind, value, h.2⟩ :: ·)
    else none
  | _ => none

/-- A text whose last line is not ended is refused. -/
def scrape (cs : List Char) : Option (List Metric) :=
  let ls := cs.splitOn '\n'
  if ls.getLast? = some [] then (ls.dropLast.mapM readLine).bind ofLines else none

/-! ## Reading back -/

theorem word_append {name rest : List Char} (h : ' ' ∉ name) :
    word (name ++ ' ' :: rest) = (name, rest) := by
  have hall : ∀ c ∈ name, decide (c ≠ ' ') = true :=
    fun c hc => decide_eq_true fun heq => h (heq ▸ hc)
  rw [word, List.takeWhile_append_of_pos hall, List.dropWhile_append_of_pos hall]
  simp

theorem stripPrefix_append (pre cs : List Char) : stripPrefix pre (pre ++ cs) = some cs := by
  rw [stripPrefix, if_pos (List.prefix_append pre cs), List.drop_left]

theorem readNat_repr (n : Nat) : readNat n.repr.toList = some n := by
  have hdigit : ∀ c ∈ Nat.toDigits 10 n, c.isDigit :=
    fun c hc => Nat.isDigit_of_mem_toDigits (by decide) (by decide) hc
  have hvalue : Nat.ofDigitChars 10 (Nat.toDigits 10 n) 0 = n :=
    Nat.ofDigitChars_toDigits (by decide) (by decide)
  rw [readNat, Nat.toList_repr, hvalue]
  exact if_pos ⟨Nat.toDigits_ne_nil, List.all_eq_true.mpr hdigit⟩

variable (m : Metric)

theorem notMem_name {c : Char} (hc : c.isAlphanum = false) (hunder : c ≠ '_') : c ∉ m.name := by
  intro hmem
  rcases m.named.chars c hmem with h | h
  · rw [hc] at h
    cases h
  · exact hunder h

theorem stripPrefix_name {pre rest : List Char} :
    stripPrefix ('#' :: pre) (m.name ++ rest) = none := by
  refine if_neg fun h => ?_
  obtain ⟨c, cs, hname⟩ := List.exists_cons_of_ne_nil m.named.ne
  rw [hname, List.cons_append, List.cons_prefix_cons] at h
  refine m.notMem_name (c := '#') (by decide) (by decide) ?_
  rw [hname, ← h.1]
  exact List.mem_cons_self

theorem readLine_lines : m.lines.mapM readLine =
    some [.help m.name m.help, .type m.name m.kind, .sample m.name m.value] := by
  have hname : ' ' ∉ m.name := m.notMem_name (by decide) (by decide)
  have hhelp : readLine ("# HELP ".toList ++ (m.name ++ ' ' :: m.help)) =
      some (.help m.name m.help) := by
    rw [readLine, stripPrefix_append]
    dsimp only
    rw [word_append hname]
  have htype : readLine ("# TYPE ".toList ++ (m.name ++ ' ' :: m.kind.text)) =
      some (.type m.name m.kind) := by
    have hother : stripPrefix "# HELP ".toList
        ("# TYPE ".toList ++ (m.name ++ ' ' :: m.kind.text)) =
        none := by
      refine if_neg ?_
      simp
    rw [readLine, hother, stripPrefix_append]
    dsimp only
    rw [word_append hname, MetricKind.read_text]
    rfl
  have hsample : readLine (m.name ++ ' ' :: m.value.repr.toList) =
      some (.sample m.name m.value) := by
    have hcomment : ∀ {pre : String} {cs : List Char}, pre.toList = '#' :: cs →
        stripPrefix pre.toList (m.name ++ ' ' :: m.value.repr.toList) = none :=
      fun h => h ▸ m.stripPrefix_name
    rw [readLine, hcomment rfl]
    dsimp only
    rw [hcomment rfl]
    dsimp only
    rw [word_append hname, readNat_repr]
    rfl
  simp only [lines, List.mapM_cons, List.mapM_nil, hhelp, htype, hsample]
  rfl

theorem newline_notMem_lines : ∀ l ∈ m.lines, '\n' ∉ l := by
  have hname : '\n' ∉ m.name := m.notMem_name (by decide) (by decide)
  have hkind : '\n' ∉ m.kind.text := by cases m.kind <;> decide
  have hvalue : '\n' ∉ Nat.toDigits 10 m.value := fun h => by
    have hdigit := Nat.isDigit_of_mem_toDigits (by decide) (by decide) h
    cases hdigit
  have hhelp := m.named.line
  simp only [lines, List.mem_cons, List.not_mem_nil, or_false]
  rintro l (rfl | rfl | rfl) <;> simp [hname, hkind, hvalue, hhelp]

theorem mapM_readLine (ms : List Metric) : (ms.flatMap lines).mapM readLine =
    some (ms.flatMap fun m =>
      [.help m.name m.help, .type m.name m.kind, .sample m.name m.value]) := by
  induction ms with
  | nil => rfl
  | cons m ms ih =>
    rw [List.flatMap_cons, List.mapM_append, readLine_lines, ih]
    rfl

theorem ofLines_metrics (ms : List Metric) :
    ofLines (ms.flatMap fun m =>
      [.help m.name m.help, .type m.name m.kind, .sample m.name m.value]) =
      some ms := by
  induction ms with
  | nil => rfl
  | cons m ms ih =>
    rw [List.flatMap_cons]
    show (if h : _ then _ else none) = _
    rw [dif_pos ⟨⟨rfl, rfl⟩, m.named⟩]
    exact congrArg (Option.map _) ih

theorem splitOn_lines {ls : List (List Char)} (h : ∀ l ∈ ls, '\n' ∉ l) :
    (ls.flatMap fun l => l ++ ['\n']).splitOn '\n' = ls ++ [[]] := by
  induction ls with
  | nil => rfl
  | cons l ls ih =>
    obtain ⟨hl, hls⟩ := List.forall_mem_cons.mp h
    rw [List.flatMap_cons, List.append_assoc, List.singleton_append,
      List.splitOn_append_cons_self_of_not_mem hl, ih hls]
    rfl

/-- A scraper reads back the metrics of a text. -/
theorem scrape_render (ms : List Metric) : scrape (render ms) = some ms := by
  have hlines : ∀ l ∈ ms.flatMap lines, '\n' ∉ l := fun l hl => by
    obtain ⟨m, -, hm⟩ := List.mem_flatMap.mp hl
    exact m.newline_notMem_lines l hm
  rw [scrape, render, splitOn_lines hlines, if_pos List.getLast?_concat, List.dropLast_concat,
    mapM_readLine]
  exact ofLines_metrics ms

end Metric
end OracleQa.Text
