import LibNekit.Source.ThirdParty.HttpParser.Loop

/-!
# What the parser reads out of a header line

While it passes a header line the parser changes four of its fields. `Scan` holds
them, and the readings below are the parser's own steps on them, so that a line can
be judged without saying where it is cut.
-/
namespace LibNekit

namespace Canonical

open LibNekit.Source LibNekit.Source.HttpParser LibNekit.Library

structure Scan where
  headerState : HeaderState := .general
  index : Nat := 0
  flags : Flags := {}
  contentLength : Nat := ullongMax
  deriving DecidableEq, Repr

end Canonical

namespace Source.HttpParser

open LibNekit.Canonical

def scan (parser : HttpParser) : Scan :=
  ⟨parser.headerState, parser.index, parser.flags, parser.contentLength⟩

@[simps] def withScan (parser : HttpParser) (scan : Scan) : HttpParser :=
  { parser with
    headerState := scan.headerState, index := scan.index, flags := scan.flags
    contentLength := scan.contentLength }

variable (parser : HttpParser)

@[simp] theorem scan_headerState : parser.scan.headerState = parser.headerState := rfl
@[simp] theorem scan_index : parser.scan.index = parser.index := rfl
@[simp] theorem scan_flags : parser.scan.flags = parser.flags := rfl
@[simp] theorem scan_contentLength : parser.scan.contentLength = parser.contentLength := rfl
@[simp] theorem scan_withScan (scan : Scan) : (parser.withScan scan).scan = scan := rfl
@[simp] theorem withScan_scan : parser.withScan parser.scan = parser := rfl
@[simp] theorem withScan_withScan (first second : Scan) :
    (parser.withScan first).withScan second = parser.withScan second := rfl
@[simp] theorem scan_goTo (state : ParserState) : (parser.goTo state).scan = parser.scan := rfl
@[simp] theorem scan_counted (count : Nat) : (parser.counted count).scan = parser.scan := rfl
@[simp] theorem scan_setErrno (errno : HttpErrno) : (parser.setErrno errno).scan = parser.scan := rfl

end Source.HttpParser

namespace Canonical

open LibNekit.Source LibNekit.Source.HttpParser LibNekit.Library

/-- A parser with nothing in it, to read with. -/
def blank : HttpParser := { type := .request, state := .headerField }

/-! ## Names -/

def nameStart (scan : Scan) (c : UInt8) : Option Scan :=
  if token c = 0 then none
  else some { scan with headerState := firstHeaderState (token c), index := 0 }

def nameStep (scan : Scan) (c : UInt8) : Option Scan :=
  if token c = 0 then none
  else
    match headerFieldChar (blank.withScan scan) c (token c) with
    | .ok parser => some parser.scan
    | .error _ => none

def nameRun (scan : Scan) (name : Bytes) : Option Scan := name.foldlM nameStep scan

/-- A character of a name is read the same in every parser. -/
theorem headerFieldChar_withScan (parser : HttpParser) (scan : Scan) (ch c : UInt8) :
    headerFieldChar (parser.withScan scan) ch c =
      (headerFieldChar (blank.withScan scan) ch c).map fun read => parser.withScan read.scan := by
  obtain ⟨headerState, index, flags, contentLength⟩ := scan
  cases headerState <;> (try by_cases visible : ch = space) <;>
    simp [headerFieldChar, matchName, Except.map, *] <;> rfl

theorem nameStep_some {parser : HttpParser} {c : UInt8} {scan : Scan}
    (step : nameStep parser.scan c = some scan) :
    token c ≠ 0 ∧ headerFieldChar parser c (token c) = .ok (parser.withScan scan) := by
  unfold nameStep at step
  split at step
  · cases step
  · rename_i isToken
    refine ⟨isToken, ?_⟩
    have same := headerFieldChar_withScan parser parser.scan c (token c)
    rw [withScan_scan] at same
    rw [same]
    split at step
    · rename_i read readable
      cases step
      rw [readable]
      rfl
    · cases step

/-- The inner loop over a name passes what can be read of it. -/
theorem headerFieldLoop_eq {name rest : Bytes} {parser : HttpParser} {scan : Scan}
    (reads : nameRun parser.scan name = some scan) (stops : ∀ c ∈ rest.head?, token c = 0) :
    headerFieldLoop (name ++ rest) parser = .ok (name.length, parser.withScan scan) := by
  induction name generalizing parser with
  | nil =>
    cases reads
    cases rest with
    | nil => rfl
    | cons c rest =>
      have stop : token c = 0 := stops c rfl
      simp [headerFieldLoop, stop]
  | cons c name ih =>
    obtain ⟨next, step, more⟩ := Option.bind_eq_some_iff.mp reads
    obtain ⟨isToken, char⟩ := nameStep_some step
    have loop : headerFieldLoop (name ++ rest) (parser.withScan next) =
        .ok (name.length, parser.withScan scan) := ih more
    simp only [List.cons_append, headerFieldLoop, if_neg isToken, char, ok_bind, loop, pure_eq_ok,
      List.length_cons]

/-! ## Values -/

def valueStart (scan : Scan) (c : UInt8) : Option Scan :=
  match startValue (blank.withScan { scan with index := 0 }) c with
  | .ok parser => some parser.scan
  | .error _ => none

def valueStep (scan : Scan) (c : UInt8) : Option Scan :=
  if c = cr ∨ c = lf ∨ ¬isHeaderChar c then none
  else if scan.headerState = .general then some scan
  else
    match headerValueChar scan.headerState (blank.withScan scan) c with
    | .ok (.ok (headerState, parser)) => some { parser.scan with headerState }
    | _ => none

def valueRun (scan : Scan) (value : Bytes) : Option Scan := value.foldlM valueStep scan

theorem startValue_withScan (parser : HttpParser) (scan : Scan) (c : UInt8) :
    startValue (parser.withScan scan) c =
      (startValue (blank.withScan scan) c).map fun read => parser.withScan read.scan := by
  obtain ⟨headerState, index, flags, contentLength⟩ := scan
  cases headerState <;> simp only [startValue, withScan_headerState, withScan_flags] <;>
    (try split_ifs) <;> rfl

theorem valueStart_some {parser : HttpParser} {c : UInt8} {scan : Scan}
    (start : valueStart parser.scan c = some scan) :
    startValue { parser with index := 0 } c = .ok (parser.withScan scan) := by
  unfold valueStart at start
  have same := startValue_withScan parser { parser.scan with index := 0 } c
  split at start
  · rename_i read readable
    cases start
    rw [readable] at same
    exact same
  · cases start

/-- A character of a value is read the same in every parser; `header_state` is a
local of the loop, so the parser's own does not matter and stays. -/
theorem headerValueChar_withScan (parser : HttpParser) (hState stale : HeaderState) (c : UInt8)
    (state : parser.state = .headerValue) :
    headerValueChar hState parser c =
      (headerValueChar hState (blank.withScan { parser.scan with headerState := stale }) c).map
        fun read => read.map fun next =>
          (next.1, parser.withScan { next.2.scan with headerState := parser.headerState }) := by
  cases parser with | mk type flags state headerState index nread contentLength => ?_
  cases state
  cases hState <;> simp only [headerValueChar, withScan_contentLength, scan_contentLength] <;> (try split_ifs) <;>
    rfl

theorem valueStep_visible {scan next : Scan} {c : UInt8} (step : valueStep scan c = some next) :
    c ≠ cr ∧ c ≠ lf ∧ isHeaderChar c = true := by
  unfold valueStep at step
  split at step
  · cases step
  · rename_i visible
    push Not at visible
    exact visible

/-- `h_general` stays what it is. -/
theorem valueStep_general {scan next : Scan} {c : UInt8} (general : scan.headerState = .general)
    (step : valueStep scan c = some next) : next = scan := by
  unfold valueStep at step
  rw [if_pos general] at step
  split at step
  · cases step
  · exact (Option.some.inj step).symm

theorem valueStep_some {parser : HttpParser} {hState : HeaderState} {c : UInt8} {scan : Scan}
    (state : parser.state = .headerValue) (special : hState ≠ .general)
    (step : valueStep { parser.scan with headerState := hState } c = some scan) :
    headerValueChar hState parser c =
      .ok (.ok (scan.headerState,
        parser.withScan { scan with headerState := parser.headerState })) := by
  unfold valueStep at step
  rw [headerValueChar_withScan parser hState hState c state]
  simp only [if_neg special] at step
  split at step
  · cases step
  · split at step
    · rename_i next read readable
      cases step
      rw [readable]
      rfl
    · cases step

/-- Nothing in a readable value ends it. -/
theorem valueRun_visible {scan next : Scan} {value : Bytes} (reads : valueRun scan value = some next) :
    ∀ c ∈ value, c ≠ cr ∧ c ≠ lf := by
  induction value generalizing scan with
  | nil => simp
  | cons c value ih =>
    obtain ⟨middle, step, more⟩ := Option.bind_eq_some_iff.mp reads
    have visible := valueStep_visible step
    intro d member
    rcases List.mem_cons.mp member with rfl | later
    · exact ⟨visible.1, visible.2.1⟩
    · exact ih more d later

theorem valueRun_general {scan next : Scan} {value : Bytes} (general : scan.headerState = .general)
    (reads : valueRun scan value = some next) : next = scan := by
  induction value generalizing scan with
  | nil => exact (Option.some.inj reads).symm
  | cons c value ih =>
    obtain ⟨middle, step, more⟩ := Option.bind_eq_some_iff.mp reads
    obtain rfl := valueStep_general general step
    exact ih general more

/-- The two `memchr` calls find the end of a value that is not too long. -/
theorem skipGeneral_eq {value rest : Bytes} (visible : ∀ c ∈ value, c ≠ cr ∧ c ≠ lf)
    (stops : ∀ c ∈ rest.head?, c = cr) (short : value.length < maxHeaderSize) :
    skipGeneral (value ++ rest) = value.length := by
  unfold skipGeneral
  cases rest with
  | nil =>
    rw [List.append_nil, List.findIdx?_eq_none_iff.mpr, Option.getD_none]
    exact fun c member => by simpa using visible c (List.mem_of_mem_take member)
  | cons c rest =>
    obtain rfl : c = cr := stops c rfl
    obtain ⟨k, room⟩ : ∃ k, maxHeaderSize = value.length + (k + 1) :=
      ⟨maxHeaderSize - value.length - 1, by omega⟩
    rw [room, List.take_length_add_append, List.take_succ_cons, List.findIdx?_append,
      List.findIdx?_eq_none_iff.mpr fun c member => by simpa using visible c member]
    simp [List.findIdx?_cons]

/-- The inner loop over a value passes what can be read of it. -/
theorem headerValueLoop_eq {value rest : Bytes} {hState : HeaderState} {parser : HttpParser}
    {scan : Scan} (state : parser.state = .headerValue)
    (reads : valueRun { parser.scan with headerState := hState } value = some scan)
    (stops : ∀ c ∈ rest.head?, c = cr) (short : value.length < maxHeaderSize) :
    headerValueLoop (value ++ rest) hState parser =
      .ok ⟨value.length, scan.headerState,
        parser.withScan { scan with headerState := parser.headerState }, .of rest.head?⟩ := by
  induction value generalizing hState parser with
  | nil =>
    cases reads
    cases rest with
    | nil => rfl
    | cons c rest =>
      obtain rfl : c = cr := stops c rfl
      rfl
  | cons c value ih =>
    have visible := valueRun_visible reads
    obtain ⟨next, step, more⟩ := Option.bind_eq_some_iff.mp reads
    obtain ⟨notCr, notLf, isChar⟩ := valueStep_visible step
    rw [List.cons_append, headerValueLoop, if_neg notCr, if_neg notLf, if_neg (by simp [isChar])]
    by_cases general : hState = .general
    · obtain rfl := valueRun_general general reads
      rw [if_pos general, ← List.cons_append, skipGeneral_eq visible stops short]
      dsimp only
      rw [List.getElem?_append_right (Nat.le_refl _), Nat.sub_self, ← List.head?_eq_getElem?]
      rfl
    · have loop := @ih next.headerState
        (parser.withScan { next with headerState := parser.headerState }) state more
        (Nat.lt_of_succ_lt short)
      rw [if_neg general, valueStep_some state general step]
      simp only [ok_bind, loop, pure_eq_ok]
      rfl

/-! ## Lines -/

/-- A header line: its name, the blanks behind the colon, and its value. -/
structure HeaderLine where
  name : Bytes
  blanks : Bytes
  value : Bytes
  deriving DecidableEq, Repr

namespace HeaderLine

/-- The line without its end. -/
def text (line : HeaderLine) : Bytes := line.name ++ byte ':' :: (line.blanks ++ line.value)

def bytes (line : HeaderLine) : Bytes := line.text ++ [cr, lf]

end HeaderLine

def isBlank (c : UInt8) : Prop := c = space ∨ c = tab

instance (c : UInt8) : Decidable (isBlank c) := inferInstanceAs (Decidable (_ ∨ _))

end Canonical

end LibNekit
