/-
This file models the gateway's recordings and a page that replays one. While a
recording is on, every batch and every withheld book that the gateway broadcasts
is written to it as a line of JSON, after a line that greets the reader; the page
splits the text into lines and parses them. The writer and parser of JSON are
parameters. In every run of the gateway the recordings read back as the frames
that were broadcast while they were made.
-/

import MarketSandbox.Web.World

namespace MarketSandbox

open Transition

variable {Price : Type}

/-! ### Lines of text -/

/-- Lines that are each ended by a newline, as one text. -/
def joinLines (lines : List String) : String :=
  lines.foldl (fun text line => text ++ line ++ "\n") ""

/-- `text.split("\n").filter(Boolean)`. -/
def splitLines (text : String) : List String :=
  ((text.toList.splitOn '\n').filter fun line => line ≠ []).map String.ofList

theorem joinLines_concat (lines : List String) (line : String) :
    joinLines (lines ++ [line]) = joinLines lines ++ line ++ "\n" := by
  rw [joinLines, List.foldl_append]
  rfl

theorem joinLines_toList (lines : List String) :
    (joinLines lines).toList = lines.flatMap fun line => line.toList ++ ['\n'] := by
  induction lines using List.reverseRecOn with
  | nil => rfl
  | append_singleton lines line inductionHypothesis =>
    rw [joinLines_concat, String.toList_append, String.toList_append, inductionHypothesis,
      List.flatMap_append, List.append_assoc]
    simp

theorem splitOn_lines (lines : List String) (oneLine : ∀ line ∈ lines, '\n' ∉ line.toList) :
    (lines.flatMap fun line => line.toList ++ ['\n']).splitOn '\n' =
      lines.map String.toList ++ [[]] := by
  induction lines with
  | nil => rfl
  | cons line rest inductionHypothesis =>
    rw [List.flatMap_cons, List.append_assoc, List.singleton_append,
      List.splitOn_append_cons_self_of_not_mem (oneLine line List.mem_cons_self),
      inductionHypothesis fun other member => oneLine other (List.mem_cons_of_mem _ member)]
    rfl

/-- Lines without a newline that are not empty are read back. -/
theorem splitLines_joinLines {lines : List String}
    (oneLine : ∀ line ∈ lines, '\n' ∉ line.toList) (full : ∀ line ∈ lines, line ≠ "") :
    splitLines (joinLines lines) = lines := by
  have kept : (lines.map String.toList).filter (fun line => line ≠ []) =
      lines.map String.toList := by
    refine List.filter_eq_self.mpr fun chars member => ?_
    obtain ⟨line, inLines, rfl⟩ := List.mem_map.mp member
    have notEmpty : line.toList ≠ [] := fun empty =>
      full line inLines (String.toList_inj.mp empty)
    exact decide_eq_true notEmpty
  rw [splitLines, joinLines_toList, splitOn_lines lines oneLine, List.filter_append, kept]
  simp

/-! ### The gateway and its recordings -/

/-- What a page reads in the line of a message. -/
def Message.line : Message Price → RecordingLine Price
  | .hello roster => .hello roster
  | .batch wire => .frame (.batch wire)
  | .book atTime shown => .frame (.book atTime shown)
  | .status _ _ | .history _ | .result _ => .other

/-- What the gateway has to handle. -/
inductive GatewayEvent (Price : Type)
  | metadata
  | down
  | data (raw : RawBatch Price) (now : Int)
  | flush (now : Int)
  | startRecording (file : String)
  | stopRecording

/-- The gateway, the text written to the recording under way, and the texts of those that have
ended. -/
structure Gateway (Price : Type) where
  server : Server Price
  stream : Option String
  files : List String

section Model

variable (stringify : Message Price → String)

/-- `record`. -/
def Gateway.record (gateway : Gateway Price) (messages : List (Message Price)) : Gateway Price :=
  { gateway with
    stream := gateway.stream.map fun text =>
      messages.foldl (fun text message => text ++ stringify message ++ "\n") text }

/-- The handlers, with what they broadcast. -/
def Gateway.handle [Zero Price] (gateway : Gateway Price) :
    GatewayEvent Price → Gateway Price × List (Message Price)
  | .metadata =>
    let outcome := gateway.server.onMetadata
    ({ gateway with server := outcome.1 }, outcome.2)
  | .down =>
    let outcome := gateway.server.down
    ({ gateway with server := outcome.1 }, outcome.2)
  | .data raw now =>
    let outcome := gateway.server.onData raw now
    ({ gateway with server := outcome.1 }.record stringify outcome.2, outcome.2)
  | .flush now =>
    let outcome := gateway.server.flush now
    ({ gateway with server := outcome.1 }.record stringify outcome.2, outcome.2)
  | .startRecording file =>
    let outcome := gateway.server.startRecording file
    ({ gateway with
        server := outcome.1
        stream :=
          if gateway.server.recorder.isSome then gateway.stream
          else some (stringify (.hello roster) ++ "\n") }, outcome.2)
  | .stopRecording =>
    let outcome := gateway.server.stopRecording
    if gateway.server.recorder.isSome then
      ({ server := outcome.1
         stream := none
         files := gateway.files ++ gateway.stream.toList }, outcome.2)
    else ({ gateway with server := outcome.1 }, outcome.2)

/-- The gateway over its life; a label has the event and what is broadcast. -/
def recordingSystem [Zero Price] :
    System (Gateway Price) (GatewayEvent Price × List (Message Price)) where
  initial gateway := gateway = ⟨.initial, none, []⟩
  step source label target := (target, label.2) = source.handle stringify label.1

end Model

/-! ### What a recording is for -/

/-- The frames broadcast in each recording that has ended, and in the one under way. -/
structure Sessions (Price : Type) where
  ended : List (List (Frame Price))
  current : Option (List (Frame Price))

/-- The recordings after an event and what it broadcasts. -/
def Sessions.after (sessions : Sessions Price) :
    GatewayEvent Price × List (Message Price) → Sessions Price
  | (.startRecording _, _) => { sessions with current := some (sessions.current.getD []) }
  | (.stopRecording, _) => ⟨sessions.ended ++ sessions.current.toList, none⟩
  | (_, messages) =>
    { sessions with current := sessions.current.map (· ++ messages.flatMap Message.frames) }

/-- The recordings of a run. -/
def sessions (labels : List (GatewayEvent Price × List (Message Price))) : Sessions Price :=
  labels.foldl Sessions.after ⟨[], none⟩

/-- The message of a frame. -/
def Frame.message : Frame Price → Message Price
  | .batch wire => .batch wire
  | .book atTime shown => .book atTime shown

section Text

variable (stringify : Message Price → String) (parse : String → Option (RecordingLine Price))

/-- The lines of a recording of frames. -/
def recordingLines (frames : List (Frame Price)) : List String :=
  (.hello roster :: frames.map Frame.message).map stringify

/-- The download of a text: it fails when a line cannot be parsed. -/
def Download.ofText (text : String) : Download Price :=
  match (splitLines text).mapM parse with
  | none => .failed
  | some lines => .parsed lines

/-- A message is written on one line, which is not empty, and is parsed back. -/
def Survives (message : Message Price) : Prop :=
  '\n' ∉ (stringify message).toList ∧ stringify message ≠ "" ∧
    parse (stringify message) = some message.line

end Text

/-! ### Recordings read back -/

@[simp] theorem Frame.message_line (frame : Frame Price) : frame.message.line = .frame frame := by
  cases frame with
  | batch | book => rfl

@[simp] theorem Frame.message_frames (frame : Frame Price) : frame.message.frames = [frame] := by
  cases frame with
  | batch | book => rfl

section ReadBack

variable {stringify : Message Price → String} {parse : String → Option (RecordingLine Price)}

theorem mapM_parse {messages : List (Message Price)}
    (survive : ∀ message ∈ messages, Survives stringify parse message) :
    (messages.map stringify).mapM parse = some (messages.map Message.line) := by
  induction messages with
  | nil => rfl
  | cons message rest inductionHypothesis =>
    rw [List.map_cons, List.mapM_cons, (survive message List.mem_cons_self).2.2,
      inductionHypothesis fun other member => survive other (List.mem_cons_of_mem _ member)]
    rfl

/-- The text of a recording is read back as the greeting and its frames. -/
theorem ofText_recordingLines {frames : List (Frame Price)}
    (survive : ∀ message ∈ .hello roster :: frames.map Frame.message,
      Survives stringify parse message) :
    Download.ofText parse (joinLines (recordingLines stringify frames)) =
      .parsed (.hello roster :: frames.map .frame) := by
  have plain : ∀ line ∈ recordingLines stringify frames, '\n' ∉ line.toList := by
    intro line member
    obtain ⟨message, inMessages, rfl⟩ := List.mem_map.mp member
    exact (survive message inMessages).1
  have full : ∀ line ∈ recordingLines stringify frames, line ≠ "" := by
    intro line member
    obtain ⟨message, inMessages, rfl⟩ := List.mem_map.mp member
    exact (survive message inMessages).2.1
  have lines : (frames.map Frame.message).map Message.line = frames.map .frame := by
    rw [List.map_map]
    exact List.map_congr_left fun frame _ => frame.message_line
  rw [Download.ofText, splitLines_joinLines plain full, recordingLines, mapM_parse survive,
    List.map_cons, lines]
  rfl

theorem joinLines_append (front back : List String) :
    joinLines (front ++ back) =
      back.foldl (fun text line => text ++ line ++ "\n") (joinLines front) :=
  List.foldl_append

/-- The recordings of the gateway are the texts of its sessions. -/
structure Gateway.Keeps (stringify : Message Price → String) (gateway : Gateway Price)
    (sessions : Sessions Price) : Prop where
  files : gateway.files =
    sessions.ended.map fun frames => joinLines (recordingLines stringify frames)
  stream : gateway.stream =
    sessions.current.map fun frames => joinLines (recordingLines stringify frames)
  recording : gateway.server.recorder.isSome = gateway.stream.isSome

/-- Frames that are broadcast are written to the recording under way. -/
theorem Gateway.Keeps.record {gateway : Gateway Price} {sessions : Sessions Price}
    (keeps : gateway.Keeps stringify sessions) {server : Server Price}
    (same : server.recorder = gateway.server.recorder) (frames : List (Frame Price)) :
    (({ gateway with server := server } : Gateway Price).record stringify
      (frames.map Frame.message)).Keeps stringify
        ⟨sessions.ended, sessions.current.map (· ++ frames)⟩ := by
  refine ⟨keeps.files, ?_, ?_⟩
  · simp only [Gateway.record, keeps.stream, Option.map_map]
    refine congrArg (fun text => sessions.current.map text) (funext fun earlier => ?_)
    simp only [Function.comp_apply, recordingLines, List.map_cons, List.map_append]
    rw [← List.cons_append, joinLines_append, List.foldl_map, List.foldl_map, List.foldl_map]
  · simp only [Gateway.record, Option.isSome_map, same]
    exact keeps.recording

/-- A handler that broadcasts no frames writes nothing. -/
theorem Gateway.Keeps.quiet {gateway : Gateway Price} {sessions : Sessions Price}
    (keeps : gateway.Keeps stringify sessions) {server : Server Price}
    (same : server.recorder = gateway.server.recorder) {messages : List (Message Price)}
    (nothing : messages.flatMap Message.frames = []) :
    ({ gateway with server := server } : Gateway Price).Keeps stringify
      ⟨sessions.ended, sessions.current.map (· ++ messages.flatMap Message.frames)⟩ := by
  have unchanged : sessions.current.map (· ++ messages.flatMap Message.frames) =
      sessions.current := by
    simp [nothing]
  rw [unchanged]
  refine ⟨keeps.files, keeps.stream, ?_⟩
  rw [same]
  exact keeps.recording

/-- A step keeps the recordings what they should be. -/
theorem Gateway.Keeps.step [Zero Price] {source target : Gateway Price} {sessions : Sessions Price}
    {label : GatewayEvent Price × List (Message Price)} (keeps : source.Keeps stringify sessions)
    (step : (recordingSystem stringify).step source label target) :
    target.Keeps stringify (sessions.after label) := by
  obtain ⟨event, messages⟩ := label
  replace step : (target, messages) = source.handle stringify event := step
  cases event with
  | metadata =>
    obtain ⟨rfl, rfl⟩ := Prod.mk.inj step
    have same : source.server.onMetadata.1.recorder = source.server.recorder := rfl
    have nothing : source.server.onMetadata.2.flatMap Message.frames = [] := rfl
    exact keeps.quiet same nothing
  | down =>
    obtain ⟨rfl, rfl⟩ := Prod.mk.inj step
    have same : source.server.down.1.recorder = source.server.recorder := by
      unfold Server.down
      split <;> rfl
    have nothing : source.server.down.2.flatMap Message.frames = [] := by
      unfold Server.down
      split <;> rfl
    exact keeps.quiet same nothing
  | data raw now =>
    obtain ⟨rfl, rfl⟩ := Prod.mk.inj step
    have same : (source.server.onData raw now).1.recorder = source.server.recorder := rfl
    exact keeps.record same [.batch (source.server.normalizer.normalize raw now).1]
  | flush now =>
    obtain ⟨rfl, rfl⟩ := Prod.mk.inj step
    cases pending : source.server.normalizer.pendingBook with
    | none =>
      rw [Server.flush_none _ pending]
      exact keeps.record rfl []
    | some book =>
      rw [Server.flush_some _ pending]
      have same : ({ source.server with normalizer := source.server.normalizer.flushBook.2 } :
        Server Price).recorder = source.server.recorder := rfl
      exact keeps.record same [.book now book]
  | startRecording file =>
    obtain ⟨rfl, _⟩ := Prod.mk.inj step
    have recording := keeps.recording
    have stream := keeps.stream
    cases started : source.server.recorder.isSome with
    | true =>
      rw [started, stream, Option.isSome_map] at recording
      obtain ⟨frames, isCurrent⟩ := Option.isSome_iff_exists.mp recording.symm
      have same : source.server.startRecording file = (source.server, []) := by
        rw [Server.startRecording, if_pos started]
      simp only [same, if_true, Sessions.after, isCurrent, Option.getD_some]
      refine ⟨keeps.files, ?_, ?_⟩
      · rw [stream, isCurrent]
      · exact keeps.recording
    | false =>
      rw [started, stream, Option.isSome_map] at recording
      have isCurrent : sessions.current = none :=
        Option.isNone_iff_eq_none.mp (Option.isSome_eq_false_iff.mp recording.symm)
      simp only [Server.startRecording, started, Bool.false_eq_true, if_false, Sessions.after,
        isCurrent, Option.getD_none]
      refine ⟨keeps.files, ?_, rfl⟩
      have single : joinLines (recordingLines stringify []) =
          "" ++ stringify (.hello roster) ++ "\n" := rfl
      rw [Option.map_some, single, String.empty_append]
  | stopRecording =>
    have recording := keeps.recording
    have stream := keeps.stream
    cases started : source.server.recorder.isSome with
    | true =>
      rw [Gateway.handle, if_pos started] at step
      obtain ⟨rfl, _⟩ := Prod.mk.inj step
      refine ⟨?_, rfl, ?_⟩
      · simp only [Sessions.after, List.map_append, keeps.files, stream]
        cases sessions.current with
        | none | some => rfl
      · simp only [Server.stopRecording, started, if_true, Option.isSome_none]
    | false =>
      rw [Gateway.handle, if_neg (by rw [started]; exact Bool.false_ne_true)] at step
      obtain ⟨rfl, _⟩ := Prod.mk.inj step
      rw [started, stream, Option.isSome_map] at recording
      have isCurrent : sessions.current = none :=
        Option.isNone_iff_eq_none.mp (Option.isSome_eq_false_iff.mp recording.symm)
      simp only [Server.stopRecording, started, Bool.false_eq_true, if_false, Sessions.after,
        isCurrent, Option.toList_none, List.append_nil]
      refine ⟨keeps.files, ?_, keeps.recording⟩
      rw [stream, isCurrent]

theorem readRecording_frames (frames : List (Frame Price)) (greeted : List RosterEntry)
    (earlier : List (Frame Price)) :
    Feed.readRecording (frames.map .frame) greeted earlier =
      (greeted, some (earlier ++ frames)) := by
  induction frames generalizing earlier with
  | nil => rw [List.map_nil, Feed.readRecording, List.append_nil]
  | cons frame rest inductionHypothesis =>
    rw [List.map_cons, Feed.readRecording, inductionHypothesis, List.append_assoc]
    rfl

/-- A page that is not live shows the frames of a recording once it has downloaded it. -/
theorem afterDownload_recording {feed : Feed Price} (notLive : feed.source ≠ .live) (now : ℚ)
    (frames : List (Frame Price)) :
    (feed.afterDownload (.parsed (.hello roster :: frames.map .frame)) now).source = .replay ∧
    (feed.afterDownload (.parsed (.hello roster :: frames.map .frame)) now).roster = roster ∧
    Kept frames
      (feed.afterDownload (.parsed (.hello roster :: frames.map .frame)) now).frames := by
  have read : Feed.readRecording (.hello roster :: frames.map .frame) feed.roster [] =
      (roster, some frames) := readRecording_frames frames roster []
  have empty : Kept [] (({ feed with roster := roster } : Feed Price).reset .replay).frames :=
    Kept.nil
  have kept := empty.push frames
  simp only [Feed.afterDownload, read, if_neg notLive]
  refine ⟨?_, ?_, kept⟩
  · simp only [Feed.push]
    split <;> rfl
  · simp only [Feed.push]
    split <;> rfl

/-- Every recording that the gateway has ended is read back as the greeting and exactly the frames
that were broadcast while it was made, and a page that replays it shows them, but for the oldest
ones where there are too many. -/
theorem recordings_replay [Zero Price] {labels : List (GatewayEvent Price × List (Message Price))}
    {gateway : Gateway Price} (run : Run (recordingSystem stringify) labels gateway)
    (survive : ∀ frames ∈ (sessions labels).ended, ∀ message ∈ .hello roster ::
      frames.map Frame.message, Survives stringify parse message) :
    gateway.files.map (Download.ofText parse) =
      (sessions labels).ended.map (fun frames => .parsed (.hello roster :: frames.map .frame)) ∧
    List.Forall₂ (fun text frames => ∀ (feed : Feed Price) (now : ℚ), feed.source ≠ .live →
      (feed.afterDownload (Download.ofText parse text) now).source = .replay ∧
      (feed.afterDownload (Download.ofText parse text) now).roster = roster ∧
      Kept frames (feed.afterDownload (Download.ofText parse text) now).frames)
      gateway.files (sessions labels).ended := by
  have keeps : gateway.Keeps stringify (sessions labels) := by
    refine run.invariant (fun labels gateway => gateway.Keeps stringify (sessions labels)) ?_ ?_
    · rintro _ rfl
      exact ⟨rfl, rfl, rfl⟩
    · intro labels source label target _ keeps step
      rw [sessions, List.foldl_append]
      exact keeps.step step
  have readBack : ∀ frames ∈ (sessions labels).ended,
      Download.ofText parse (joinLines (recordingLines stringify frames)) =
        .parsed (.hello roster :: frames.map .frame) :=
    fun frames member => ofText_recordingLines (survive frames member)
  rw [keeps.files]
  constructor
  · rw [List.map_map]
    exact List.map_congr_left readBack
  · rw [List.forall₂_map_left_iff, List.forall₂_same]
    intro frames member feed now notLive
    rw [readBack frames member]
    exact afterDownload_recording notLive now frames

end ReadBack

/-! ### A short recording -/

namespace Sample

/-- A decoded batch in which everything but the timestamp is absent. -/
def bareRaw : RawBatch ℚ := ⟨some 5, none, none, none, none, none⟩

/-- What the gateway makes of it. -/
def bareBatch : WireBatch ℚ := ((Normalizer.initial : Normalizer ℚ).normalize bareRaw 100).1

/-- Pieces of text as one. -/
def concat (pieces : List String) : String := String.ofList (pieces.flatMap String.toList)

/-- The pieces of the batch as JSON. -/
def barePieces : List String :=
  ["\x7b\"t\":\"batch\",\"at\":5,\"seq\":0,\"op\":\"submit\",\"order\":\x7b\"id\":\"\"",
    ",\"node\":\"\",\"side\":\"\",\"type\":\"\",\"price\":0,\"qty\":0,\"status\":\"\"",
    ",\"filled\":0,\"avg\":0,\"reason\":\"\",\"cancelOk\":false\x7d,\"trace\":\x7b\"enqueue\":0",
    ",\"dequeue\":0,\"matchDone\":0,\"promiseSet\":0,\"publish\":0\x7d,\"trades\":[]",
    ",\"tob\":null\x7d"]

/-- The pieces of an entry of the roster as JSON. -/
def entryPieces (entry : RosterEntry) : List String :=
  ["\x7b\"id\":\"", entry.id, "\",\"strategy\":\"", entry.strategy, "\"\x7d"]

/-- The pieces of the greeting as JSON. -/
def helloPieces (greeted : List RosterEntry) : List String :=
  ["\x7b\"t\":\"hello\",\"roster\":["] ++
    ((greeted.map entryPieces).intersperse [","]).flatten ++ ["]\x7d"]

theorem concat_plain {pieces : List String} (plain : '\n' ∉ pieces.flatMap String.toList)
    (full : pieces.flatMap String.toList ≠ []) :
    '\n' ∉ (concat pieces).toList ∧ concat pieces ≠ "" := by
  rw [concat, String.toList_ofList]
  exact ⟨plain, fun empty => full (String.ofList_eq_empty_iff.mp empty)⟩

/-- The writer on the two messages of the recording. -/
def writeJson : Message ℚ → String
  | .hello greeted => concat (helloPieces greeted)
  | .batch _ => concat barePieces
  | _ => "null"

/-- The parser on their two lines. -/
def parseJson (text : String) : Option (RecordingLine ℚ) :=
  if text = concat barePieces then some (.frame (.batch bareBatch))
  else if text = concat (helloPieces roster) then some (.hello roster)
  else none

/-- A recording of one batch. -/
def recordedLabels : List (GatewayEvent ℚ × List (Message ℚ)) :=
  [(.startRecording "session.ndjson", [.status false (some "session.ndjson")]),
    (.data bareRaw 100, [.batch bareBatch]), (.flush 150, []),
    (.stopRecording, [.status false none])]

theorem recordedRun : ∃ gateway, Run (recordingSystem writeJson) recordedLabels gateway := by
  have start : Run (recordingSystem writeJson) [] (⟨.initial, none, []⟩ : Gateway ℚ) :=
    Run.start rfl
  have started : Run (recordingSystem writeJson)
      (_ ++ [(GatewayEvent.startRecording "session.ndjson",
        [Message.status false (some "session.ndjson")])]) _ :=
    start.next rfl
  have written : Run (recordingSystem writeJson)
      (_ ++ [(GatewayEvent.data bareRaw 100, [Message.batch bareBatch])]) _ := started.next rfl
  have flushed : Run (recordingSystem writeJson) (_ ++ [(GatewayEvent.flush 150, [])]) _ :=
    written.next rfl
  have stopped : Run (recordingSystem writeJson)
      (_ ++ [(GatewayEvent.stopRecording, [Message.status false none])]) _ := flushed.next rfl
  exact ⟨_, stopped⟩

theorem recorded_survive : ∀ frames ∈ (sessions recordedLabels).ended,
    ∀ message ∈ .hello roster :: frames.map Frame.message,
      Survives writeJson parseJson message := by
  intro frames inSessions message member
  obtain rfl := List.mem_singleton.mp inSessions
  rcases List.mem_cons.mp member with rfl | isBatch
  · obtain ⟨oneLine, full⟩ := @concat_plain (helloPieces roster) (by decide +kernel)
      (by decide +kernel)
    have different : concat (helloPieces roster) ≠ concat barePieces := by
      intro same
      have chars := congrArg String.toList same
      rw [concat, concat, String.toList_ofList, String.toList_ofList] at chars
      revert chars
      decide +kernel
    exact ⟨oneLine, full, (if_neg different).trans (if_pos rfl)⟩
  · obtain rfl := List.mem_singleton.mp isBatch
    obtain ⟨oneLine, full⟩ := @concat_plain barePieces (by decide +kernel) (by decide +kernel)
    exact ⟨oneLine, full, if_pos rfl⟩

end Sample

theorem recordings_replay_sample : ∃ gateway : Gateway ℚ,
    gateway.files.map (Download.ofText Sample.parseJson) =
      [.parsed [.hello roster, .frame (.batch Sample.bareBatch)]] := by
  obtain ⟨gateway, run⟩ := Sample.recordedRun
  exact ⟨gateway, (recordings_replay run Sample.recorded_survive).1⟩

end MarketSandbox
