import LibNekit.Canonical.StartLines

/-!
# The parser on a header line

The parser passes names and values in loops of their own, and counts what they pass
when they stop.
-/
namespace LibNekit.Canonical

open LibNekit.Source LibNekit.Source.Rewriter LibNekit.Source.HttpParser LibNekit.Library

/-! ## Pieces of names and values -/

namespace Reader

variable {setup : Setup} {l last : Reader} {n b v bytes : Bytes} {events : List Event}

/-- A reader in a name reads on to its end, or as far as there are bytes. -/
theorem run_name (sound : l.Sound setup) (phase : l.phase = .name n)
    (ran : run setup l bytes = some (last, events)) :
    ∃ piece rest scan, bytes = piece ++ rest ∧ nameRun l.parser.scan piece = some scan ∧
      (∀ c ∈ rest.head?, c = byte ':') ∧
      Sound setup ⟨l.parser.withScan scan, .name (n ++ piece), l.count + piece.length⟩ ∧
      run setup ⟨l.parser.withScan scan, .name (n ++ piece), l.count + piece.length⟩ rest =
        some (last, events) := by
  induction bytes generalizing l n events with
  | nil =>
    refine ⟨[], [], l.parser.scan, rfl, rfl, nofun, ?_⟩
    rw [withScan_scan, List.append_nil, ← phase]
    exact ⟨sound, ran⟩
  | cons c bytes ih =>
    obtain ⟨next, first, later, stepped, ranRest, rfl⟩ := run_cons_some ran
    obtain ⟨read, count⟩ := step_read (by rw [phase]; nofun) stepped
    rw [countAfter_header (Or.inr (by rw [phase]; rfl)) sound.meets] at count
    rw [phase] at read
    simp only [Reader.read, readName] at read
    split at read
    · rename_i isColon
      refine ⟨[], c :: bytes, l.parser.scan, rfl, rfl, ?_, ?_⟩
      · rintro d same
        cases same
        exact isColon
      · rw [withScan_scan, List.append_nil, ← phase]
        exact ⟨sound, ran⟩
    · obtain ⟨scan, step, same⟩ := Option.map_eq_some_iff.mp read
      simp only [Prod.mk.injEq] at same
      obtain ⟨parser, after, rfl⟩ := same
      obtain ⟨piece, rest, final, split, reads, stops, sound', ran'⟩ :=
        ih (step_sound sound stepped) after.symm ranRest
      rw [← parser, scan_withScan] at reads
      rw [← parser, withScan_withScan, List.append_assoc, count, Nat.add_assoc, Nat.add_comm 1] at sound' ran'
      exact ⟨c :: piece, rest, final, by rw [split]; rfl,
        Option.bind_eq_some_iff.mpr ⟨scan, step, reads⟩, stops, sound', ran'⟩

/-- A reader in a value reads on to its CR, or as far as there are bytes. -/
theorem run_value (sound : l.Sound setup) (phase : l.phase = .value n b v)
    (ran : run setup l bytes = some (last, events)) :
    ∃ piece rest scan, bytes = piece ++ rest ∧ valueRun l.parser.scan piece = some scan ∧
      (∀ c ∈ rest.head?, c = cr) ∧
      Sound setup ⟨l.parser.withScan scan, .value n b (v ++ piece), l.count + piece.length⟩ ∧
      run setup ⟨l.parser.withScan scan, .value n b (v ++ piece), l.count + piece.length⟩ rest =
        some (last, events) := by
  induction bytes generalizing l v events with
  | nil =>
    refine ⟨[], [], l.parser.scan, rfl, rfl, nofun, ?_⟩
    rw [withScan_scan, List.append_nil, ← phase]
    exact ⟨sound, ran⟩
  | cons c bytes ih =>
    obtain ⟨next, first, later, stepped, ranRest, rfl⟩ := run_cons_some ran
    obtain ⟨read, count⟩ := step_read (by rw [phase]; nofun) stepped
    rw [countAfter_header (Or.inr (by rw [phase]; rfl)) sound.meets] at count
    rw [phase] at read
    simp only [Reader.read, readValue] at read
    split at read
    · rename_i isCr
      refine ⟨[], c :: bytes, l.parser.scan, rfl, rfl, ?_, ?_⟩
      · rintro d same
        cases same
        exact isCr
      · rw [withScan_scan, List.append_nil, ← phase]
        exact ⟨sound, ran⟩
    · obtain ⟨scan, step, same⟩ := Option.map_eq_some_iff.mp read
      simp only [Prod.mk.injEq] at same
      obtain ⟨parser, after, rfl⟩ := same
      obtain ⟨piece, rest, final, split, reads, stops, sound', ran'⟩ :=
        ih (step_sound sound stepped) after.symm ranRest
      rw [← parser, scan_withScan] at reads
      rw [← parser, withScan_withScan, List.append_assoc, count, Nat.add_assoc, Nat.add_comm 1] at sound' ran'
      exact ⟨c :: piece, rest, final, by rw [split]; rfl,
        Option.bind_eq_some_iff.mpr ⟨scan, step, reads⟩, stops, sound', ran'⟩

/-- The LF that ends a header block is read twice. -/
theorem step_closes {line : Line} {l' : Reader} {c : UInt8} (sound : l.Sound setup)
    (phase : l.phase = .lastCr line) (stepped : l.step setup c = some (l', events)) :
    ∃ closed first second, c = lf ∧ l.close setup line = some (closed, first) ∧ closed.Sound setup ∧
      closed.step setup c = some (l', second) ∧ events = first ++ second := by
  have state : l.parser.state = .headersAlmostDone := by
    have has := sound.meets.has
    rwa [phase] at has
  unfold step at stepped
  split at stepped
  · cases stepped
  rename_i room
  rw [phase] at stepped
  dsimp only at stepped
  split at stepped
  · cases stepped
  rename_i isLf
  obtain ⟨⟨closed, first⟩, closes, rest⟩ := Option.bind_eq_some_iff.mp stepped
  obtain ⟨⟨after, second⟩, read, same⟩ := Option.bind_eq_some_iff.mp rest
  cases same
  have less : l.count < setup.limit := by
    have after := countAfter_le sound (full_of_reads room)
    rw [countAfter_header (Or.inr (by rw [phase]; rfl)) sound.meets] at after
    exact after
  refine ⟨closed, first, second, not_not.mp isLf, closes, close_sound sound less closes, ?_, rfl⟩
  unfold close at closes
  split at closes
  · cases closes
  · cases closes
    simpa [step, refuses, plain, full, Phase.held] using read

end Reader

variable {p nread : Nat} {c : UInt8}

/-- The name's own loop passes a piece, which is counted behind it. -/
theorem switch_name {data piece rest : Bytes} {parser : HttpParser} {marks : Marks} {scan : Scan}
    (state : parser.state = .headerField) (left : data.drop p = piece ++ rest)
    (reads : nameRun parser.scan piece = some scan) (stops : ∀ c ∈ rest.head?, c = byte ':') :
    switch data ⟨p, parser.counting nread, marks⟩ c =
      (⟨p + piece.length, (parser.withScan scan).counting nread, marks⟩ : Frame).countHeaderSize
        piece.length >>= fun f =>
          match data[f.p]? with
          | none => Run.next { f with p := f.p - 1 }
          | some ch =>
            if ch = byte ':' then callbackData .headerField (f.goTo .headerValueDiscardWs)
            else f.error .invalidHeaderToken := by
  have notToken : ∀ c ∈ rest.head?, token c = 0 := by
    intro c member
    rw [stops c member]
    decide
  have loop := @headerFieldLoop_eq piece rest (parser.counting nread) scan reads notToken
  unfold switch
  simp only [counting_state, state]
  unfold headerField
  dsimp only
  rw [left, loop, Run.lift_ok, Run.next_bind]
  rfl

/-- So does the value's. At the CR it is reported, and counted then. -/
theorem switch_value {data piece rest : Bytes} {parser : HttpParser} {marks : Marks} {scan : Scan}
    (state : parser.state = .headerValue) (left : data.drop p = piece ++ cr :: rest)
    (reads : valueRun parser.scan piece = some scan) (short : piece.length < maxHeaderSize) :
    switch data ⟨p, parser.counting nread, marks⟩ c =
      callbackDataTo .headerValue (p + piece.length) (p + piece.length + 1)
        ⟨p + piece.length, ((parser.withScan scan).goTo .headerAlmostDone).counting nread, marks⟩ >>=
      fun f => f.countHeaderSize piece.length := by
  have loop := @headerValueLoop_eq piece (cr :: rest) parser.headerState (parser.counting nread) scan state
    reads (fun c same => by cases same; rfl) short
  unfold switch
  simp only [counting_state, state]
  unfold headerValue
  dsimp only
  rw [left, counting_headerState, loop, Run.lift_ok, Run.next_bind]
  rfl

/-- At the end of the data it is counted only. -/
theorem switch_valueCut {data piece : Bytes} {parser : HttpParser} {marks : Marks} {scan : Scan}
    (state : parser.state = .headerValue) (left : data.drop p = piece)
    (reads : valueRun parser.scan piece = some scan) (short : piece.length < maxHeaderSize) :
    switch data ⟨p, parser.counting nread, marks⟩ c =
      (⟨p + piece.length, (parser.withScan scan).counting nread, marks⟩ : Frame).countHeaderSize
        piece.length >>= fun f => Run.next { f with p := f.p - 1 } := by
  have loop := @headerValueLoop_eq piece [] parser.headerState (parser.counting nread) scan state
    reads nofun short
  rw [List.append_nil] at loop
  unfold switch
  simp only [counting_state, state]
  unfold headerValue
  dsimp only
  rw [left, counting_headerState, loop, Run.lift_ok, Run.next_bind]
  rfl

/-- The first character of a value is marked. -/
theorem switch_valueStart {data : Bytes} {parser : HttpParser} {scan : Scan}
    (state : parser.state = .headerValueDiscardWs) (notBlank : ¬isBlank c) (visible : c ≠ cr ∧ c ≠ lf)
    (starts : valueStart parser.scan c = some scan) :
    switch data ⟨p, parser.counting nread, fun _ => none⟩ c =
      Run.next ⟨p, ((parser.withScan scan).goTo .headerValue).counting nread,
        Function.update (fun _ => none) .headerValue (some p)⟩ := by
  have start := @valueStart_some ((parser.counting nread).goTo .headerValue) c scan starts
  unfold isBlank at notBlank
  unfold switch
  simp only [counting_state, state]
  unfold headerValueDiscardWs headerValueStart
  rw [if_neg notBlank, if_neg visible.1, if_neg visible.2]
  simp only [Frame.mark, Option.isSome_none, Bool.false_eq_true, if_false]
  unfold Frame.goTo
  dsimp only
  rw [start]
  rfl

/-- The first character of a name is marked. -/
theorem headerFieldStart_name {parser : HttpParser} {scan : Scan}
    (starts : nameStart parser.scan c = some scan) (visible : c ≠ cr ∧ c ≠ lf) :
    headerFieldStart ⟨p, parser.counting nread, fun _ => none⟩ c =
      Run.next ⟨p, ((parser.withScan scan).goTo .headerField).counting nread,
        Function.update (fun _ => none) .headerField (some p)⟩ := by
  unfold nameStart at starts
  split at starts
  · cases starts
  · rename_i isToken
    cases starts
    unfold headerFieldStart
    rw [if_neg visible.1, if_neg visible.2, if_neg isToken]
    simp only [Frame.mark, Option.isSome_none, Bool.false_eq_true, if_false]
    rfl

theorem nameStart_visible {scan after : Scan} (starts : nameStart scan c = some after) :
    c ≠ cr ∧ c ≠ lf ∧ ¬isBlank c := by
  unfold nameStart at starts
  split at starts
  · cases starts
  · rename_i isToken
    unfold isBlank
    refine ⟨?_, ?_, ?_⟩
    · rintro rfl
      exact isToken (by decide)
    · rintro rfl
      exact isToken (by decide)
    · rintro (rfl | rfl) <;> exact isToken (by decide)

/-- Behind a line that ended in CRLF the next one begins, or the block ends. -/
theorem switch_lineEnd {data : Bytes} {parser : HttpParser} {line : Line}
    (has : (Phase.lineEnd line).Has parser.state) (notBlank : ¬isBlank c) :
    switch data ⟨p, parser.counting nread, fun _ => none⟩ c =
      headerFieldStart
        ⟨p, ((Reader.endLine parser).goTo .headerFieldStart).counting nread, fun _ => none⟩ c := by
  have start (state : parser.state = .headerFieldStart) :
      switch data ⟨p, parser.counting nread, fun _ => none⟩ c =
        headerFieldStart
          ⟨p, ((Reader.endLine parser).goTo .headerFieldStart).counting nread, fun _ => none⟩ c := by
    have same : (Reader.endLine parser).goTo .headerFieldStart = parser := by
      unfold Reader.endLine
      rw [if_pos state, ← state]
      rfl
    rw [same]
    unfold switch
    simp only [counting_state, state]
  cases line with
  | request target version => exact start has
  | status text => exact start has
  | header line =>
    have state : parser.state = .headerValueLws := has
    unfold isBlank at notBlank
    unfold switch Reader.endLine
    simp only [counting_state, state, headerValueLws, if_neg notBlank, reduceCtorEq, if_false]
    rfl

/-- Behind a line without a value, it is reported first. -/
theorem switch_emptyEnd {data : Bytes} {parser : HttpParser} (state : parser.state = .headerValueDiscardLws)
    (notBlank : ¬isBlank c) :
    switch data ⟨p, parser.counting nread, fun _ => none⟩ c =
      callbackDataTo .headerValue p p
        ⟨p, ((Reader.endLine parser).goTo .headerFieldStart).counting nread,
          Function.update (fun _ => none) .headerValue (some p)⟩ >>= fun f => headerFieldStart f c := by
  unfold isBlank at notBlank
  unfold switch Reader.endLine
  simp only [counting_state, state, headerValueDiscardLws, if_neg notBlank, reduceCtorEq, if_false, Frame.mark,
    Option.isSome_none, Bool.false_eq_true]
  rfl

/-- The parser when it calls `on_headers_complete`. -/
def atHeadersDone (parser : HttpParser) : HttpParser :=
  { parser.goTo .headersDone with upgrade := reportsUpgrade (parser.goTo .headersDone) }

/-- The LF that ends a header block. -/
theorem switch_lastCr {data : Bytes} {parser : HttpParser} (state : parser.state = .headersAlmostDone)
    (first : parser.flags.trailing = false)
    (framed : ¬(parser.flags.chunked = true ∧ parser.flags.contentLength = true)) :
    switch data ⟨p, parser.counting nread, fun _ => none⟩ lf =
      headersComplete ⟨p, (atHeadersDone parser).counting nread, fun _ => none⟩ >>= fun f =>
        headersDone f lf := by
  unfold switch
  simp only [counting_state, state, headersAlmostDone, ne_eq, not_true_eq_false, if_false, counting_flags, first,
    Bool.false_eq_true]
  rw [if_neg framed]
  rfl

section

variable {σ : Type} {handler : Callback → σ → Checked (Reply × σ)} {s s' : σ} {f : Frame}

theorem headersComplete_pauses {skip : Bool}
    (answered : handler (.notify .headersComplete) s =
      .ok ({ code := if skip then 1 else 0, paused := true }, s')) :
    (headersComplete f).under handler s =
      .ok (.exit f.p { f.parser with
        flags.skipBody := f.parser.flags.skipBody || skip, httpErrno := .paused }, s') := by
  unfold headersComplete
  rw [under_ask answered]
  cases skip <;> simp

theorem headersComplete_refused (answered : handler (.notify .headersComplete) s = .ok ({ code := -1 }, s')) :
    (headersComplete f).under handler s =
      .ok (.exit f.p (f.parser.setErrno (.cbNotify .headersComplete)), s') := by
  unfold headersComplete
  rw [under_ask answered]
  rfl

end

variable {δ : Type} {x : Context δ} {already : Bool} {g : Draft δ} {events : List Event}
  {last l l' : Reader} {r : RewriterImpl} {rest : Bytes}

namespace Context

theorem piece_append {start len : Nat} {piece rest : Bytes}
    (left : x.data.drop (start + len) = piece ++ rest) :
    x.piece start (len + piece.length) = x.piece start len ++ piece ∧
      x.data.drop (start + (len + piece.length)) = rest := by
  unfold Context.piece
  constructor
  · rw [List.take_add, List.drop_drop, left, List.take_left]
  · rw [← Nat.add_assoc, ← List.drop_drop, left, List.drop_left]

/-! ## Names -/

theorem Phase.glides_name (n : Bytes) : (Phase.name n).Glides (.blanks n []) (byte ':') :=
  ⟨rfl, by simp [Phase.held, HeaderLine.text], fun _ _ o => ⟨o.state, o.token, o.tokenEnd,
    fun line same => o.field ⟨line.name, [], []⟩ (by cases same; rfl), nofun⟩, rfl⟩

/-- The loop on a name that is marked. -/
theorem feeds_name (lawful : x.Lawful) {start : Nat} (least : Nat) (lead : Bytes) {front : List Event}
    (reports : ∀ len, least ≤ len → start + len ≤ x.data.length →
      Outcome (x.handler (.data .headerField start len) (r, g.delegate))
        (x.Answered g front (.name (lead ++ x.piece start len)) (start + len)) False)
    (calm : r.processMessageComplete = false) (fresh : x.token = none)
    (ih : x.Continues last (start + 1)) (positive : 0 < x.data.length) {len nread : Nat} {l : Reader}
    {back : List Event} (enough : least ≤ len) (inside : start + len ≤ x.data.length)
    (phase : l.phase = .name (lead ++ x.piece start len)) (sound : l.Sound x.setup)
    (few : nread ≤ 2 * l.count)
    (ahead : Reader.run x.setup l (x.data.drop (start + len)) = some (last, back))
    (tame : x.acts.Tame (front ++ back) g) :
    Feeds x.handler x.data ⟨start + len, l.parser.counting nread,
      Function.update (fun _ => none) .headerField (some start)⟩ (r, g.delegate)
      (x.Left already g (front ++ back) last) False := by
  have state : l.parser.state = .headerField := by
    have has := sound.meets.has
    rwa [phase] at has
  rcases Nat.eq_or_lt_of_le inside with used | more
  · rw [used, List.drop_length] at ahead
    exact reported_stop lawful (phase ▸ reports len enough inside) used (by omega) few sound
      (by rw [phase]; rfl) ahead
  obtain ⟨piece, rest, scan, left, reads, stops, sound', ahead'⟩ := Reader.run_name sound phase ahead
  obtain ⟨pieces, behind⟩ := piece_append left
  have bounded := Nat.le_trans sound'.count lawful.limit
  have within := congrArg List.length left
  rw [List.length_drop, List.length_append] at within
  rw [List.append_assoc, ← pieces] at sound' ahead'
  have report := reports (len + piece.length) (by omega) (by omega)
  have here := List.getElem?_eq_getElem more
  refine Feeds.header here (by rw [state]; rfl) few (Nat.le_trans sound.count lawful.limit)
    (fun long => left_overflow lawful sound long calm) ?_
  rw [switch_name state left reads stops]
  refine outcome_count (l.count + piece.length) _ (by omega) bounded
    (fun long => left_overflow lawful sound' long calm) ?_
  rw [Nat.add_assoc start]
  dsimp only
  cases rest with
  | nil =>
    have used : start + (len + piece.length) = x.data.length := by
      rw [List.length_nil] at within
      omega
    rw [List.getElem?_eq_none (by omega)]
    have back : start + (len + piece.length) - 1 + 1 = start + (len + piece.length) := by omega
    refine ⟨(by omega : start + len ≤ start + (len + piece.length) - 1), ?_⟩
    show Feeds x.handler x.data ⟨start + (len + piece.length) - 1 + 1, _, _⟩ _ _ _
    rw [back]
    exact reported_stop lawful report used (by omega) (by dsimp only; omega) sound' rfl ahead'
  | cons d rest =>
    obtain rfl : d = byte ':' := stops d rfl
    obtain ⟨l', first, later, stepped, ran, rfl⟩ := Reader.run_cons_some ahead'
    obtain ⟨read, count⟩ := Reader.step_read (fun line same => by cases same) stepped
    rw [Reader.countAfter_header (Or.inr rfl) sound'.meets] at count
    simp only [Reader.read, Reader.readName, if_true, Option.some.injEq, Prod.mk.injEq] at read
    obtain ⟨parser, after, rfl⟩ := read
    rw [here_of_drop behind]
    simp only [if_true]
    rw [List.nil_append] at tame ⊢
    have ends := @reported_end _ x r g _ start _ rest already front later last l' (nread + 1 + piece.length)
      .headerField (len + piece.length) lawful report behind (after ▸ Phase.glides_name _)
      (by rw [count]; dsimp only; omega) (Reader.step_sound sound' stepped) ran tame fresh
      fun _ _ _ _ _ _ _ later => ih _ _ _ _ _ _ _ (by omega)
    rw [← parser] at ends
    exact ends.mono (fun _ goes => goes.mono (by omega)) id

/-! ## Values -/

theorem Phase.glides_value (n b v : Bytes) :
    (Phase.value n b v).Glides (.lineCr (.header ⟨n, b, v⟩)) cr :=
  ⟨rfl, rfl, fun _ _ o => ⟨o.state, o.token, o.tokenEnd, o.field, o.value⟩, rfl⟩

/-- The loop on a value that is marked. -/
theorem feeds_value (lawful : x.Lawful) {start : Nat} (least : Nat) (n b lead : Bytes)
    (reports : ∀ len, least ≤ len → start + len ≤ x.data.length →
      Outcome (x.handler (.data .headerValue start len) (r, g.delegate))
        (x.Answered g [] (.value n b (lead ++ x.piece start len)) (start + len)) False)
    (calm : r.processMessageComplete = false) (fresh : x.token = none)
    (ih : x.Continues last (start + 1)) (positive : 0 < x.data.length) {len nread : Nat} {l : Reader}
    {back : List Event} (enough : least ≤ len) (inside : start + len ≤ x.data.length)
    (phase : l.phase = .value n b (lead ++ x.piece start len)) (sound : l.Sound x.setup)
    (few : nread ≤ 2 * l.count)
    (ahead : Reader.run x.setup l (x.data.drop (start + len)) = some (last, back))
    (tame : x.acts.Tame back g) :
    Feeds x.handler x.data ⟨start + len, l.parser.counting nread,
      Function.update (fun _ => none) .headerValue (some start)⟩ (r, g.delegate)
      (x.Left already g back last) False := by
  have state : l.parser.state = .headerValue := by
    have has := sound.meets.has
    rwa [phase] at has
  rcases Nat.eq_or_lt_of_le inside with used | more
  · rw [used, List.drop_length] at ahead
    exact reported_stop lawful (phase ▸ reports len enough inside) used (by omega) few sound
      (by rw [phase]; rfl) ahead
  obtain ⟨piece, rest, scan, left, reads, stops, sound', ahead'⟩ := Reader.run_value sound phase ahead
  obtain ⟨pieces, behind⟩ := piece_append left
  have bounded := Nat.le_trans sound'.count lawful.limit
  have begun := sound.begun (by rw [phase]; rfl)
  have short : piece.length < maxHeaderSize := by
    dsimp only at bounded
    omega
  have within := congrArg List.length left
  rw [List.length_drop, List.length_append] at within
  rw [List.append_assoc, ← pieces] at sound' ahead'
  have report := reports (len + piece.length) (by omega) (by omega)
  have here := List.getElem?_eq_getElem more
  refine Feeds.header here (by rw [state]; rfl) few (Nat.le_trans sound.count lawful.limit)
    (fun long => left_overflow lawful sound long calm) ?_
  cases rest with
  | nil =>
    rw [List.append_nil] at left
    rw [switch_valueCut state left reads short]
    refine outcome_count (l.count + piece.length) _ (by omega) bounded
      (fun long => left_overflow lawful sound' long calm) ?_
    rw [Nat.add_assoc start]
    have used : start + (len + piece.length) = x.data.length := by
      rw [List.length_nil] at within
      omega
    have back : start + (len + piece.length) - 1 + 1 = start + (len + piece.length) := by omega
    refine ⟨(by omega : start + len ≤ start + (len + piece.length) - 1), ?_⟩
    show Feeds x.handler x.data ⟨start + (len + piece.length) - 1 + 1, _, _⟩ _ _ _
    rw [back]
    have fewer : nread + 1 + piece.length ≤ 2 * (l.count + piece.length) := by omega
    exact reported_stop lawful report used (by omega) fewer sound' rfl ahead'
  | cons d rest =>
    obtain rfl : d = cr := stops d rfl
    obtain ⟨l', first, later, stepped, ran, rfl⟩ := Reader.run_cons_some ahead'
    obtain ⟨read, count⟩ := Reader.step_read (fun line same => by cases same) stepped
    rw [Reader.countAfter_header (Or.inr rfl) sound'.meets] at count
    simp only [Reader.read, Reader.readValue, if_true, Option.some.injEq, Prod.mk.injEq] at read
    obtain ⟨parser, after, rfl⟩ := read
    rw [switch_value state left reads short, parser, Nat.add_assoc start]
    rw [List.nil_append] at tame ⊢
    have ends := @reported_then _ x r g _ start _ rest already [] later last l' (nread + 1) .headerValue
      (len + piece.length) (fun f => f.countHeaderSize piece.length) lawful report behind
      (after ▸ Phase.glides_value n b _) (by rw [count]; dsimp only; omega)
      (Reader.step_sound sound' stepped) ran tame fresh ?_
    · exact ends.mono (fun _ goes => goes.mono (by omega)) id
    · intro r' ready
      rw [← bind_next (Frame.countHeaderSize _ _)]
      refine outcome_count l'.count _ (by rw [count]; dsimp only; omega) (ready.few_bytes lawful)
        (fun long => left_overflow lawful ready.sound long ready.stands.calm.processMessageComplete) ?_
      have later : start + 1 ≤ start + (len + piece.length) + 1 := by omega
      refine ⟨Nat.le_refl _, ih _ _ _ _ _ _ _ later { ready with few := ?_ } (after ▸ rfl)⟩
      rw [count]
      dsimp only
      omega

theorem Phase.glides_blanks (n b : Bytes) (c : UInt8) :
    (Phase.blanks n b).Glides (.blanks n (b ++ [c])) c :=
  ⟨rfl, by simp [Phase.held, HeaderLine.text], fun _ _ o => ⟨o.state, o.token, o.tokenEnd,
    fun line same => o.field ⟨line.name, b, []⟩ (by cases same; rfl), nofun⟩, rfl⟩

theorem feeds_blanks {n b : Bytes} (lawful : x.Lawful) (ready : x.Ready already g events last l r p nread)
    (phase : l.phase = .blanks n b) (left : x.data.drop p = c :: rest) (ih : x.Continues last (p + 1)) :
    x.Resumes already g events last l r p nread fun _ => none := by
  have sound := ready.sound
  have few := ready.few
  have inside := lt_of_drop left
  have state : l.parser.state = .headerValueDiscardWs := by
    have has := sound.meets.has
    rwa [phase] at has
  obtain ⟨l', first, back, stepped, ran, rfl⟩ := Reader.run_cons_some (left ▸ ready.ahead)
  obtain ⟨read, count⟩ := Reader.step_read (by rw [phase]; nofun) stepped
  have fresh := ready.fresh (by rw [phase]; rfl)
  have sound' := Reader.step_sound sound stepped
  have stands := ready.stands
  rw [Reader.countAfter_header (Or.inr (by rw [phase]; rfl)) sound.meets] at count
  rw [phase] at read stands
  simp only [Reader.read, Reader.readBlanks] at read
  split at read
  · rename_i blank
    simp only [Option.some.injEq, Prod.mk.injEq] at read
    obtain ⟨parser, after, rfl⟩ := read
    refine ready.silent lawful left ih stepped (by rw [state]; rfl) ?_ count fresh fun k => ?_
    · rw [phase, ← after]
      exact Phase.glides_blanks n b c
    · unfold switch
      simp only [counting_state, state, headerValueDiscardWs]
      rw [← parser]
      exact if_pos blank
  rename_i notBlank
  split at read
  · cases read
  rename_i notLf
  split at read
  · rename_i isCr
    subst isCr
    simp only [Option.some.injEq, Prod.mk.injEq] at read
    obtain ⟨parser, after, rfl⟩ := read
    refine ready.silent lawful left ih stepped (by rw [state]; rfl) ?_ count fresh fun k => ?_
    · rw [phase, ← after]
      exact ⟨rfl, rfl, fun _ _ o => ⟨o.state, o.token, o.tokenEnd, o.field, o.value⟩, rfl⟩
    · unfold switch
      simp only [counting_state, state, headerValueDiscardWs]
      rw [if_neg (by decide), if_true, ← parser]
      rfl
  · rename_i notCr
    obtain ⟨scan, starts, same⟩ := Option.map_eq_some_iff.mp read
    simp only [Prod.mk.injEq] at same
    obtain ⟨parser, after, rfl⟩ := same
    refine Feeds.header (here_of_drop left) (by rw [state]; rfl) ready.few (ready.few_bytes lawful)
      (fun long => left_overflow lawful ready.sound long ready.stands.calm.processMessageComplete) ?_
    rw [switch_valueStart state notBlank ⟨notCr, notLf⟩ starts, parser]
    refine ⟨Nat.le_refl _, ?_⟩
    have single : x.piece p 1 = [c] := @piece_succ _ _ _ _ _ 0 left
    exact @feeds_value _ _ already _ last _ lawful p 1 n b []
      (fun len positive inside => onHeaderValue_begins stands positive inside)
      stands.calm.processMessageComplete fresh ih (by omega) 1 _ l' back (Nat.le_refl _) inside
      (by rw [← after, single]; rfl) sound' (by omega) (by rw [drop_succ left]; exact ran) ready.tame

/-- The loop goes on with a name or a value that was cut. -/
theorem feeds_nameRest {n : Bytes} (lawful : x.Lawful) (ready : x.Ready already g events last l r 0 nread)
    (phase : l.phase = .name n) (positive : 0 < x.data.length) (ih : x.Continues last 1) :
    x.Resumes already g events last l r 0 nread
      (Function.update (fun _ => none) .headerField (some 0)) := by
  have stands := ready.stands
  rw [phase] at stands
  exact @feeds_name _ _ already _ last _ lawful 0 0 n [] (fun len _ inside => onHeaderField_goesOn stands inside)
    stands.calm.processMessageComplete (ready.fresh (by rw [phase]; rfl)) ih positive 0 nread l events
    (Nat.le_refl _) (Nat.zero_le _) (phase.trans (congrArg _ (List.append_nil n).symm)) ready.sound ready.few
    ready.ahead ready.tame

theorem feeds_valueRest {n b v : Bytes} (lawful : x.Lawful)
    (ready : x.Ready already g events last l r 0 nread) (phase : l.phase = .value n b v)
    (positive : 0 < x.data.length) (ih : x.Continues last 1) :
    x.Resumes already g events last l r 0 nread
      (Function.update (fun _ => none) .headerValue (some 0)) := by
  have stands := ready.stands
  rw [phase] at stands
  exact @feeds_value _ _ already _ last _ lawful 0 0 n b v
    (fun len _ inside => onHeaderValue_goesOn stands inside)
    stands.calm.processMessageComplete (ready.fresh (by rw [phase]; rfl)) ih positive 0 nread l events
    (Nat.le_refl _) (Nat.zero_le _) (phase.trans (congrArg _ (List.append_nil v).symm)) ready.sound ready.few
    ready.ahead ready.tame

/-! ## Between two lines -/

theorem Phase.glides_lastCr (line : Line) : (Phase.lineEnd line).Glides (.lastCr line) cr := by
  refine ⟨rfl, by simp [Phase.held], fun _ _ o => ?_, rfl⟩
  cases line <;> exact ⟨o.state, o.token, o.tokenEnd, o.field, o.value⟩

/-- The first byte behind a line: the block ends, or a name begins. -/
theorem headerFieldStart_goes {line : Line} {parser : HttpParser} {first back : List Event}
    (lawful : x.Lawful) (stands : x.Stands r g (.lineEnd line) p) (left : x.data.drop p = c :: rest)
    (ih : x.Continues last (p + 1)) (fresh : x.token = none)
    (read : (if c = cr then some (parser.goTo .headersAlmostDone, Phase.lastCr line, [])
        else (nameStart parser.scan c).map fun scan =>
          ((parser.withScan scan).goTo .headerField, .name [c], line.events)) =
      some (l'.parser, l'.phase, first)) (few : nread ≤ 2 * l'.count) (sound : l'.Sound x.setup)
    (ran : Reader.run x.setup l' rest = some (last, back)) (tame : x.acts.Tame (first ++ back) g) :
    Outcome ((headerFieldStart ⟨p, parser.counting nread, fun _ => none⟩ c).under x.handler (r, g.delegate))
      (Goes x.handler x.data p (x.Left already g (first ++ back) last) False) False := by
  have inside := lt_of_drop left
  split at read
  · rename_i isCr
    subst isCr
    simp only [Option.some.injEq, Prod.mk.injEq] at read
    obtain ⟨next, after, rfl⟩ := read
    unfold headerFieldStart
    rw [if_pos rfl]
    refine ⟨Nat.le_refl _, ?_⟩
    show Feeds _ _ ⟨p + 1, (parser.goTo .headersAlmostDone).counting nread, _⟩ _ _ _
    rw [next]
    exact ih already g _ l' r _ _ (Nat.le_refl _) ⟨few, sound,
      after ▸ stands.glide left (Phase.glides_lastCr line), by rw [drop_succ left]; exact ran, tame,
      fun _ => fresh, after ▸ token_runs rfl, by simp [fresh], after ▸ nofun⟩ (after ▸ rfl)
  · obtain ⟨scan, starts, same⟩ := Option.map_eq_some_iff.mp read
    simp only [Prod.mk.injEq] at same
    obtain ⟨next, after, rfl⟩ := same
    obtain ⟨notCr, notLf, -⟩ := nameStart_visible starts
    rw [headerFieldStart_name starts ⟨notCr, notLf⟩, next]
    refine ⟨Nat.le_refl _, ?_⟩
    have single : x.piece p 1 = [c] := @piece_succ _ _ _ _ _ 0 left
    exact @feeds_name _ _ already _ last _ lawful p 1 [] line.events
      (fun len positive inside => onHeaderField_begins lawful stands positive inside tame.take)
      stands.calm.processMessageComplete fresh ih (by omega) 1 _ l' back (Nat.le_refl _) inside
      (by rw [← after, single]; rfl) sound few (by rw [drop_succ left]; exact ran) tame

theorem readLineEnd_visible {next : HttpParser × Phase × List Event} {parser : HttpParser} {line : Line}
    (read : (if c = cr then some (parser.goTo .headersAlmostDone, Phase.lastCr line, [])
        else (nameStart parser.scan c).map fun scan =>
          ((parser.withScan scan).goTo .headerField, .name [c], line.events)) = some next) :
    ¬isBlank c := by
  split at read
  · rename_i isCr
    subst isCr
    decide
  · obtain ⟨scan, starts, -⟩ := Option.map_eq_some_iff.mp read
    exact (nameStart_visible starts).2.2

theorem feeds_lineEnd {line : Line} (lawful : x.Lawful)
    (ready : x.Ready already g events last l r p nread) (phase : l.phase = .lineEnd line)
    (left : x.data.drop p = c :: rest) (ih : x.Continues last (p + 1)) :
    x.Resumes already g events last l r p nread fun _ => none := by
  have sound := ready.sound
  have few := ready.few
  obtain ⟨l', first, back, stepped, ran, rfl⟩ := Reader.run_cons_some (left ▸ ready.ahead)
  obtain ⟨read, count⟩ := Reader.step_read (by rw [phase]; nofun) stepped
  have fresh := ready.fresh (by rw [phase]; rfl)
  have sound' := Reader.step_sound sound stepped
  have stands := ready.stands
  have has := sound.meets.has
  rw [Reader.countAfter_header (Or.inr (by rw [phase]; rfl)) sound.meets] at count
  rw [phase] at read stands has
  simp only [Reader.read, Reader.readLineEnd] at read
  have goes : Outcome ((headerFieldStart ⟨p, ((Reader.endLine l.parser).goTo .headerFieldStart).counting
        (nread + 1), fun _ => none⟩ c).under x.handler (r, g.delegate))
      (Goes x.handler x.data p (x.Left already g (first ++ back) last) False) False :=
    headerFieldStart_goes lawful stands left ih fresh read (by omega) sound' ran ready.tame
  refine Feeds.header (here_of_drop left) (@Reader.header_state (.lineEnd line) _ rfl has).1 ready.few
    (ready.few_bytes lawful)
    (fun long => left_overflow lawful ready.sound long ready.stands.calm.processMessageComplete) ?_
  rw [switch_lineEnd has (readLineEnd_visible read)]
  exact goes

theorem feeds_emptyEnd {n b : Bytes} (lawful : x.Lawful)
    (ready : x.Ready already g events last l r p nread) (phase : l.phase = .emptyEnd n b)
    (left : x.data.drop p = c :: rest) (ih : x.Continues last (p + 1)) :
    x.Resumes already g events last l r p nread fun _ => none := by
  have sound := ready.sound
  have few := ready.few
  have inside := lt_of_drop left
  have state : l.parser.state = .headerValueDiscardLws := by
    have has := sound.meets.has
    rwa [phase] at has
  obtain ⟨l', first, back, stepped, ran, rfl⟩ := Reader.run_cons_some (left ▸ ready.ahead)
  obtain ⟨read, count⟩ := Reader.step_read (by rw [phase]; nofun) stepped
  have fresh := ready.fresh (by rw [phase]; rfl)
  have sound' := Reader.step_sound sound stepped
  have stands := ready.stands
  rw [Reader.countAfter_header (Or.inr (by rw [phase]; rfl)) sound.meets] at count
  rw [phase] at read stands
  simp only [Reader.read, Reader.readLineEnd] at read
  have clear : ((Reader.endLine l.parser).goTo .headerFieldStart).httpErrno = .ok :=
    (Reader.endLine_keeps l.parser).1.trans sound.meets.clear
  obtain ⟨r', answered, stands'⟩ := onHeaderValue_empty stands inside
  have goes : Outcome ((headerFieldStart ⟨p, ((Reader.endLine l.parser).goTo .headerFieldStart).counting
        (nread + 1), fun _ => none⟩ c).under x.handler (r', g.delegate))
      (Goes x.handler x.data p (x.Left already g (first ++ back) last) False) False :=
    headerFieldStart_goes lawful stands' left ih fresh read (by omega) sound' ran ready.tame
  refine Feeds.header (here_of_drop left) (by rw [state]; rfl) ready.few (ready.few_bytes lawful)
    (fun long => left_overflow lawful ready.sound long ready.stands.calm.processMessageComplete) ?_
  have marked : Function.update (fun _ => none : Marks) .headerValue (some p) .headerValue = some p :=
    Function.update_self ..
  rw [switch_emptyEnd state (readLineEnd_visible read), callbackDataTo_marked clear marked, Run.ask_bind,
    Nat.sub_self, under_ask answered]
  rw [← @setErrno_clear (((Reader.endLine l.parser).goTo .headerFieldStart).counting (nread + 1)) clear,
    ← unmark .headerValue p] at goes
  exact goes

/-! ## The end of a header block -/

theorem close_phase {l closed : Reader} {line : Line} {first : List Event} {setup : Setup}
    (closes : l.close setup line = some (closed, first)) :
    closed.phase = .headersDone line.lag ∧ first = line.events ++ [.headersComplete, .raw [cr]] := by
  unfold Reader.close at closes
  split at closes
  · cases closes
  · cases closes
    exact ⟨rfl, rfl⟩

/-- The parser behind `on_headers_complete`, which pauses it. -/
theorem close_models {l closed : Reader} {line : Line} {first : List Event} {setup : Setup} {nread : Nat}
    (few : nread ≤ 2 * l.count + 1) (closes : l.close setup line = some (closed, first)) :
    closed.Models { (atHeadersDone l.parser).counting nread with
      flags.skipBody := l.parser.flags.skipBody || setup.skipBody, httpErrno := .paused } := by
  unfold Reader.close at closes
  split at closes
  · cases closes
  · cases closes
    exact ⟨nread, by dsimp only; omega, Or.inr rfl⟩

theorem feeds_lastCr {line : Line} (lawful : x.Lawful)
    (ready : x.Ready already g events last l r p nread) (phase : l.phase = .lastCr line)
    (left : x.data.drop p = c :: rest) :
    x.Resumes already g events last l r p nread fun _ => none := by
  have sound := ready.sound
  have few := ready.few
  have state : l.parser.state = .headersAlmostDone := by
    have has := sound.meets.has
    rwa [phase] at has
  obtain ⟨l', both, more, stepped, ran, rfl⟩ := Reader.run_cons_some (left ▸ ready.ahead)
  obtain ⟨closed, first, second, rfl, closes, soundClosed, steppedClosed, rfl⟩ :=
    Reader.step_closes sound phase stepped
  have ahead : Reader.run x.setup closed (x.data.drop p) = some (last, second ++ more) := by
    rw [left, Reader.run_cons, steppedClosed, Option.bind_some, ran]
    rfl
  have fresh := ready.fresh (by rw [phase]; rfl)
  have stands := ready.stands
  rw [phase] at stands
  have framed : ¬(l.parser.flags.chunked = true ∧ l.parser.flags.contentLength = true) := by
    intro both
    unfold Reader.close at closes
    rw [if_pos both] at closes
    cases closes
  have next : (x.unread p).head? = some lf := by
    rw [unread_cons left]
    rfl
  have models := @close_models l closed line first x.setup (nread + 1) (by omega) closes
  refine Feeds.header (here_of_drop left) (by rw [state]; rfl) ready.few (ready.few_bytes lawful)
    (fun long => left_overflow lawful ready.sound long ready.stands.calm.processMessageComplete) ?_
  rw [switch_lastCr state (sound.meets.trailing (by rw [phase]; rfl)) framed]
  obtain ⟨phaseClosed, firstClosed⟩ := close_phase closes
  have waits (start : ∀ header, line ≠ .header header) : Outcome
      ((headersComplete ⟨p, (atHeadersDone l.parser).counting (nread + 1), fun _ => none⟩ >>= fun f =>
        headersDone f lf).under x.handler (r, g.delegate))
      (Goes x.handler x.data p (x.Left already g (first ++ second ++ more) last) False) False := by
    rw [under_bind, headersComplete_pauses (onHeadersComplete_waits start stands)]
    have same : { r with processHeaderComplete := false } = r := by
      rw [← stands.calm.processHeaderComplete]
    refine .lineOnly (List.nil_append _).symm rfl sound phase start closes models (left ▸ ready.ahead)
      stands.inside ?_ rfl ?_ fresh
    · rw [left]
      rfl
    · show Rests x.setup (finish p { r with processHeaderComplete := false }) g l.phase (x.unread p)
      rw [same, phase]
      exact stands.rests rfl
  cases line with
  | header line =>
    subst firstClosed
    obtain ⟨_, answered, closing⟩ :=
      (onHeadersComplete_closes lawful stands next ready.tame.take.take).exists_ok
    rcases closing with ⟨refuses, incomplete⟩ | ⟨performed, rests⟩
    · rw [under_bind, headersComplete_refused answered]
      exact .failed (lawful.refusal refuses) ⟨nofun, nofun⟩ incomplete
    · rw [under_bind, headersComplete_pauses answered]
      refine .rests (List.append_assoc ..) performed soundClosed models ahead stands.inside
        (Or.inr ⟨⟨1, phaseClosed⟩, fresh⟩) (phaseClosed ▸ rests) (by simp [fresh])
        (fun _ => Or.inr ⟨1, phaseClosed⟩) (by rw [phaseClosed]; nofun)
  | request target version => exact waits nofun
  | status text => exact waits nofun

end Context

end LibNekit.Canonical
