/-
This file models the feed of Cap'n Proto messages on the wire: the server writes
each message as its length in bytes and then its words, and the reader reads a
length and then as many bytes. Sockets split the bytes in any way. Whatever the
splits, and wherever the stream is cut, the reader delivers exactly the messages
whose frames are complete before the cut.
-/

import Mathlib.Algebra.Group.Nat.Defs
import Mathlib.Data.List.Flatten
import MarketSandbox.Library.Transfer

namespace MarketSandbox

open Transfer

/-! ### Messages -/

/-- A word of a message: eight bytes. -/
abbrev Word : Type := Vector UInt8 8

/-- `kScratchWords`, of the server and of the reader. -/
def kScratchWords : Nat := 512

/-- The bytes of some words. -/
def wordBytes (words : List Word) : List UInt8 := words.flatMap Vector.toList

theorem length_wordBytes (words : List Word) : (wordBytes words).length = 8 * words.length := by
  induction words with
  | nil => rfl
  | cons word rest inductionHypothesis =>
    rw [wordBytes, List.flatMap_cons, List.length_append, Vector.length_toList, ← wordBytes,
      inductionHypothesis, List.length_cons]
    omega

/-- The four bytes of a 32-bit length, the lowest first. -/
def lengthBytes (byteLen : Nat) : List UInt8 :=
  [.ofNat byteLen, .ofNat (byteLen / 2 ^ 8), .ofNat (byteLen / 2 ^ 16), .ofNat (byteLen / 2 ^ 24)]

/-- The length that four bytes hold. -/
def readLength (bytes : List UInt8) : Nat :=
  bytes.foldr (fun byte rest => byte.toNat + 2 ^ 8 * rest) 0

theorem readLength_lengthBytes {byteLen : Nat} (bound : byteLen < 2 ^ 32) :
    readLength (lengthBytes byteLen) = byteLen := by
  simp only [readLength, lengthBytes, List.foldr_cons, List.foldr_nil, UInt8.toNat_ofNat']
  omega

/-! ### The server -/

namespace CapnpFeedServer

/-- The server's end of a connection: the calls of `send` so far, and the bytes accepted. -/
structure Outgoing where
  call : Nat
  wire : List UInt8

/-- `send` of what is missing of some data, from an offset on. -/
def send (socket : Schedule) (data : List UInt8) (out : Outgoing) (sent length : Nat) :
    Nat × Outgoing :=
  let n := socket.amount out.call length
  (n, ⟨out.call + 1, out.wire ++ (data.drop sent).take n⟩)

/-- `sendAll`. -/
def sendAll (socket : Schedule) (data : List UInt8) (out : Outgoing) : Bool × Outgoing :=
  transferAll (send socket data) data.length 0 out

/-- The loop of `serveClient` over the segments of each event's message. -/
def serveClient (socket : Schedule) : List (List (List Word)) → Outgoing → Outgoing
  | [], out => out
  | [words] :: rest, out =>
    let byteLen := words.length * 8 % 2 ^ 32
    let length := sendAll socket (lengthBytes byteLen) out
    if length.1 then
      let sent := sendAll socket ((wordBytes words).take byteLen) length.2
      if sent.1 then serveClient socket rest sent.2 else sent.2
    else length.2
  | _ :: _, out => out

end CapnpFeedServer

/-! ### Frames -/

/-- The frame of a message: its length in bytes, and its words. -/
def frame (words : List Word) : List UInt8 :=
  lengthBytes (8 * words.length) ++ wordBytes words

theorem length_frame (words : List Word) : (frame words).length = 4 + 8 * words.length := by
  rw [frame, List.length_append, length_wordBytes]
  rfl

namespace CapnpFeedServer

/-- The server has sent some data, from its start on. -/
def HasSent (data : List UInt8) (out : Outgoing) (sent : Nat) (state : Outgoing) : Prop :=
  state.wire = out.wire ++ data.take sent

/-- A `send` sends on. -/
theorem HasSent.next {data : List UInt8} {out state : Outgoing} {sent : Nat}
    (hasSent : HasSent data out sent state) (socket : Schedule) (length : Nat) :
    HasSent data out (sent + (send socket data state sent length).1)
      (send socket data state sent length).2 := by
  unfold HasSent at hasSent ⊢
  rw [send, hasSent, List.append_assoc, List.take_add]

/-- `sendAll` puts all the data on the wire. -/
theorem sendAll_sends {socket : Schedule} (positive : socket.Positive) (data : List UInt8)
    (out : Outgoing) :
    (sendAll socket data out).1 = true ∧ (sendAll socket data out).2.wire = out.wire ++ data := by
  have start : HasSent data out 0 out := (List.append_nil _).symm
  have succeeds : (sendAll socket data out).1 = true :=
    transferAll_succeeds (HasSent data out) (fun sent state less hasSent =>
      ⟨Nat.pos_iff_ne_zero.mp (positive _ _ (Nat.sub_pos_of_lt less)), hasSent.next socket _⟩) start
  have all : HasSent data out data.length (sendAll socket data out).2 := by
    refine transferAll_keeps (HasSent data out) ?_ (Nat.zero_le _) start succeeds
    intro sent state less hasSent _
    have atMost : (send socket data state sent (data.length - sent)).1 ≤ data.length - sent :=
      socket.atMost _ _
    exact ⟨by omega, hasSent.next socket _⟩
  rw [HasSent, List.take_length] at all
  exact ⟨succeeds, all⟩

/-- The server puts the frames of one-segment messages on the wire. -/
theorem serveClient_wire {socket : Schedule} (positive : socket.Positive)
    {messages : List (List Word)} (small : ∀ words ∈ messages, words.length ≤ kScratchWords)
    (out : Outgoing) :
    (serveClient socket (messages.map fun words => [words]) out).wire =
      out.wire ++ messages.flatMap frame := by
  induction messages generalizing out with
  | nil => exact (List.append_nil _).symm
  | cons words rest inductionHypothesis =>
    rw [List.forall_mem_cons] at small
    have byteLen : words.length * 8 % 2 ^ 32 = 8 * words.length := by
      have fits := small.1
      unfold kScratchWords at fits
      omega
    obtain ⟨sentLength, wireLength⟩ := sendAll_sends positive (lengthBytes (8 * words.length)) out
    obtain ⟨sentWords, wireWords⟩ := sendAll_sends positive (wordBytes words)
      (sendAll socket (lengthBytes (8 * words.length)) out).2
    rw [List.map_cons, serveClient]
    simp only [byteLen]
    rw [if_pos sentLength, ← length_wordBytes, List.take_length, length_wordBytes,
      if_pos sentWords, inductionHypothesis small.2, wireWords, wireLength, List.flatMap_cons,
      frame]
    simp only [List.append_assoc]

end CapnpFeedServer

/-! ### The reader -/

namespace CapnpDemo

/-- The reader's end of a connection: the calls of `recv` so far, the bytes that are still to come,
and the buffer that is read into. -/
structure Incoming where
  call : Nat
  stream : List UInt8
  buffer : List UInt8

/-- `recv` of what is missing, to an offset in the buffer. -/
def recv (socket : Schedule) (incoming : Incoming) (got length : Nat) : Nat × Incoming :=
  let n := socket.amount incoming.call (min length incoming.stream.length)
  (n, ⟨incoming.call + 1, incoming.stream.drop n,
    incoming.buffer.take got ++ incoming.stream.take n⟩)

/-- `recvAll`. -/
def recvAll (socket : Schedule) (length : Nat) (incoming : Incoming) : Bool × Incoming :=
  transferAll (recv socket) length 0 incoming

/-- The reader has read some bytes of a stream, from its start on, into the buffer. -/
structure HasRead (stream : List UInt8) (got : Nat) (incoming : Incoming) : Prop where
  within : got ≤ stream.length
  left : incoming.stream = stream.drop got
  read : incoming.buffer.take got = stream.take got

/-- A `recv` reads on, and no more than is missing. -/
theorem HasRead.next {stream : List UInt8} {got : Nat} {incoming : Incoming}
    (hasRead : HasRead stream got incoming) (socket : Schedule) (length : Nat) :
    (recv socket incoming got length).1 ≤ length ∧
      HasRead stream (got + (recv socket incoming got length).1)
        (recv socket incoming got length).2 := by
  obtain ⟨within, left, read⟩ := hasRead
  have offered := socket.atMost incoming.call (min length incoming.stream.length)
  have available : incoming.stream.length = stream.length - got := by
    rw [left, List.length_drop]
  refine ⟨Nat.le_trans offered (Nat.min_le_left _ _), ?_, ?_, ?_⟩
  · have moved : (recv socket incoming got length).1 ≤ incoming.stream.length :=
      Nat.le_trans offered (Nat.min_le_right _ _)
    omega
  · simp only [recv, left, List.drop_drop]
  · simp only [recv, read, left]
    rw [← List.take_add, List.take_take, min_self]

/-- A `recv` makes progress while bytes are to come. -/
theorem recv_positive {socket : Schedule} (positive : socket.Positive) {incoming : Incoming}
    {got length : Nat} (missing : 0 < length) (toCome : 0 < incoming.stream.length) :
    (recv socket incoming got length).1 ≠ 0 :=
  Nat.pos_iff_ne_zero.mp (positive _ _ (lt_min missing toCome))

/-- What `recvAll` has read when it succeeds. -/
theorem recvAll_reads (socket : Schedule) (length : Nat) (incoming : Incoming)
    (succeeds : (recvAll socket length incoming).1 = true) :
    HasRead incoming.stream length (recvAll socket length incoming).2 := by
  refine transferAll_keeps (HasRead incoming.stream) ?_ (Nat.zero_le _) ?_ succeeds
  · intro got state less hasRead _
    obtain ⟨atMost, read⟩ := hasRead.next socket (length - got)
    exact ⟨by omega, read⟩
  · exact ⟨Nat.zero_le _, rfl, rfl⟩

/-- `recvAll` succeeds when enough bytes are to come. -/
theorem recvAll_succeeds {socket : Schedule} (positive : socket.Positive) {length : Nat}
    {incoming : Incoming} (enough : length ≤ incoming.stream.length) :
    (recvAll socket length incoming).1 = true := by
  refine transferAll_succeeds (HasRead incoming.stream) ?_ ⟨Nat.zero_le _, rfl, rfl⟩
  intro got state less hasRead
  refine ⟨recv_positive positive (by omega) ?_, (hasRead.next socket _).2⟩
  rw [hasRead.left, List.length_drop]
  omega

/-- How the reader's loop ends. -/
inductive LiveEnd
  | lengthMissing
  | badLength (byteLen : Nat)
  | payloadMissing
  deriving DecidableEq

/-- The loop of `runLive`: the payloads that it delivers, and how it ends. -/
def runLive (socket : Schedule) (incoming : Incoming) : List (List UInt8) × LiveEnd :=
  let length := recvAll socket 4 incoming
  if _ : length.1 = true then
    let byteLen := readLength (length.2.buffer.take 4)
    if byteLen = 0 ∨ byteLen % 8 ≠ 0 ∨ byteLen > kScratchWords * 8 then ([], .badLength byteLen)
    else
      let payload := recvAll socket byteLen length.2
      if _ : payload.1 = true then
        let later := runLive socket payload.2
        (payload.2.buffer.take byteLen :: later.1, later.2)
      else ([], .payloadMissing)
  else ([], .lengthMissing)
termination_by incoming.stream.length
decreasing_by
  rename_i hasLength _ hasPayload
  have readLength := recvAll_reads socket 4 incoming hasLength
  have readPayload := recvAll_reads socket _ _ hasPayload
  rw [readPayload.left, readLength.left, List.length_drop, List.length_drop]
  have within := readLength.within
  omega

/-- The length that has been read from the start of a frame. -/
theorem readLength_frame {words : List Word} (small : words.length ≤ kScratchWords)
    {stream rest : List UInt8} (starts : stream = lengthBytes (8 * words.length) ++ rest)
    {incoming : Incoming} (hasRead : HasRead stream 4 incoming) :
    readLength (incoming.buffer.take 4) = 8 * words.length := by
  have length : (lengthBytes (8 * words.length)).length = 4 := rfl
  rw [hasRead.read, starts, ← length, List.take_left]
  unfold kScratchWords at small
  exact readLength_lengthBytes (by omega)

/-- The length of a message within the limits passes the reader's checks. -/
theorem length_passes {words : List Word} (some : 1 ≤ words.length)
    (small : words.length ≤ kScratchWords) :
    ¬ (8 * words.length = 0 ∨ 8 * words.length % 8 ≠ 0 ∨ 8 * words.length > kScratchWords * 8) := by
  omega

/-- A complete frame at the start of the stream is delivered, and the reader goes on behind it. -/
theorem runLive_complete {socket : Schedule} (positive : socket.Positive) {words : List Word}
    (some : 1 ≤ words.length) (small : words.length ≤ kScratchWords) {incoming : Incoming}
    {rest : List UInt8} (starts : incoming.stream = frame words ++ rest) :
    ∃ later : Incoming, later.stream = rest ∧
      runLive socket incoming =
        (wordBytes words :: (runLive socket later).1, (runLive socket later).2) := by
  have splits : incoming.stream =
      lengthBytes (8 * words.length) ++ (wordBytes words ++ rest) := by
    rw [starts, frame, List.append_assoc]
  have four : (lengthBytes (8 * words.length)).length = 4 := rfl
  have eight := length_wordBytes words
  have hasLength : (recvAll socket 4 incoming).1 = true :=
    recvAll_succeeds positive (by rw [splits, List.length_append]; omega)
  have length := recvAll_reads socket 4 incoming hasLength
  have byteLen := readLength_frame small splits length
  have left : (recvAll socket 4 incoming).2.stream = wordBytes words ++ rest := by
    rw [length.left, splits, ← four, List.drop_left]
  have hasPayload : (recvAll socket (8 * words.length) (recvAll socket 4 incoming).2).1 = true :=
    recvAll_succeeds positive (by rw [left, List.length_append]; omega)
  have payload := recvAll_reads socket _ _ hasPayload
  refine ⟨(recvAll socket (8 * words.length) (recvAll socket 4 incoming).2).2, ?_, ?_⟩
  · rw [payload.left, left, ← eight, List.drop_left]
  · rw [runLive, dif_pos hasLength]
    simp only [byteLen]
    rw [if_neg (length_passes some small), dif_pos hasPayload, payload.read, left, ← eight,
      List.take_left]

/-- A frame that is cut is not delivered, and its length is not found bad. -/
theorem runLive_cut (socket : Schedule) {words : List Word} (some : 1 ≤ words.length)
    (small : words.length ≤ kScratchWords) {incoming : Incoming} {cut : Nat}
    (inside : cut < (frame words).length) (starts : incoming.stream = (frame words).take cut) :
    (runLive socket incoming).1 = [] ∧
      ∀ byteLen, (runLive socket incoming).2 ≠ .badLength byteLen := by
  have streamLength : incoming.stream.length ≤ cut := by
    rw [starts]
    exact List.length_take_le _ _
  rw [length_frame] at inside
  by_cases hasLength : (recvAll socket 4 incoming).1 = true
  · have length := recvAll_reads socket 4 incoming hasLength
    have within := length.within
    have splits : incoming.stream =
        lengthBytes (8 * words.length) ++ (wordBytes words).take (cut - 4) := by
      rw [starts, frame, List.take_append,
        List.take_of_length_le (Nat.le_trans within streamLength)]
      rfl
    have byteLen := readLength_frame small splits length
    have noPayload : ¬ (recvAll socket (8 * words.length)
        (recvAll socket 4 incoming).2).1 = true := by
      intro hasPayload
      have payload := (recvAll_reads socket _ _ hasPayload).within
      rw [length.left, List.length_drop] at payload
      omega
    rw [runLive, dif_pos hasLength]
    simp only [byteLen]
    rw [if_neg (length_passes some small), dif_neg noPayload]
    exact ⟨rfl, nofun⟩
  · rw [runLive, dif_neg hasLength]
    exact ⟨rfl, nofun⟩

/-- The reader delivers the messages whose frames are complete before the cut. -/
theorem runLive_delivers {socket : Schedule} (positive : socket.Positive)
    {messages : List (List Word)}
    (sized : ∀ words ∈ messages, 1 ≤ words.length ∧ words.length ≤ kScratchWords) (cut : Nat)
    {incoming : Incoming} (starts : incoming.stream = (messages.flatMap frame).take cut) :
    ∃ complete ≤ messages.length,
      (runLive socket incoming).1 = (messages.take complete).map wordBytes ∧
      ((messages.take complete).flatMap frame).length ≤ cut ∧
      (complete < messages.length →
        cut < ((messages.take (complete + 1)).flatMap frame).length) ∧
      ∀ byteLen, (runLive socket incoming).2 ≠ .badLength byteLen := by
  induction messages generalizing cut incoming with
  | nil =>
    have empty : incoming.stream = [] := by rw [starts, List.flatMap_nil, List.take_nil]
    have missing : ¬ (recvAll socket 4 incoming).1 = true := by
      intro hasLength
      have within := (recvAll_reads socket 4 incoming hasLength).within
      rw [empty] at within
      exact absurd within (by decide)
    rw [runLive, dif_neg missing]
    exact ⟨0, le_rfl, rfl, Nat.zero_le _, nofun, nofun⟩
  | cons words rest inductionHypothesis =>
    rw [List.forall_mem_cons] at sized
    obtain ⟨⟨some, small⟩, sizedRest⟩ := sized
    rw [List.flatMap_cons] at starts
    rcases Nat.lt_or_ge cut (frame words).length with inside | beyond
    · rw [List.take_append_of_le_length (Nat.le_of_lt inside)] at starts
      obtain ⟨nothing, notBad⟩ := runLive_cut socket some small inside starts
      refine ⟨0, Nat.zero_le _, nothing, Nat.zero_le _, fun _ => ?_, notBad⟩
      simpa using inside
    · rw [List.take_append, List.take_of_length_le beyond] at starts
      obtain ⟨later, left, delivered⟩ := runLive_complete positive some small starts
      obtain ⟨complete, few, same, before, after, notBad⟩ :=
        inductionHypothesis sizedRest (cut - (frame words).length) left
      refine ⟨complete + 1, Nat.succ_le_succ few, ?_, ?_, fun more => ?_, ?_⟩
      · rw [delivered, same]
        rfl
      · rw [List.take_succ_cons, List.flatMap_cons, List.length_append]
        omega
      · have next := after (Nat.lt_of_succ_lt_succ more)
        rw [List.take_succ_cons, List.flatMap_cons, List.length_append]
        omega
      · rw [delivered]
        exact notBad

end CapnpDemo

/-! ### The feed -/

open CapnpFeedServer CapnpDemo

/-- Whatever the sockets do, the wire has the frames of the messages, the reader delivers their
payloads, and when the stream is cut it delivers those whose frames are complete before the cut. -/
theorem feed_framing_survives {writer reader : Schedule} (writes : writer.Positive)
    (reads : reader.Positive) {messages : List (List Word)}
    (sized : ∀ words ∈ messages, 1 ≤ words.length ∧ words.length ≤ kScratchWords) :
    let wire := (serveClient writer (messages.map fun words => [words]) ⟨0, []⟩).wire
    wire = messages.flatMap frame ∧
      (runLive reader ⟨0, wire, []⟩).1 = messages.map wordBytes ∧
      ∀ cut, ∃ complete ≤ messages.length,
        (runLive reader ⟨0, wire.take cut, []⟩).1 = (messages.take complete).map wordBytes ∧
        ((messages.take complete).flatMap frame).length ≤ cut ∧
        (complete < messages.length →
          cut < ((messages.take (complete + 1)).flatMap frame).length) ∧
        ∀ byteLen, (runLive reader ⟨0, wire.take cut, []⟩).2 ≠ .badLength byteLen := by
  intro wire
  have whole : wire = messages.flatMap frame :=
    serveClient_wire writes (fun words member => (sized words member).2) ⟨0, []⟩
  refine ⟨whole, ?_, fun cut => runLive_delivers reads sized cut (by rw [whole])⟩
  obtain ⟨complete, few, same, _, after, _⟩ := @runLive_delivers reader reads messages sized
    wire.length ⟨0, wire, []⟩ (by rw [whole, List.take_length])
  have all : complete = messages.length := by
    by_contra other
    have beyond := after (by omega)
    have part := (List.take_sublist (complete + 1) messages).flatMap frame
    rw [whole] at beyond
    exact absurd part.length_le (Nat.not_le_of_lt beyond)
  rw [same, all, List.take_length]

/-- Three messages: of two words, of one and of three. -/
def threeMessages : List (List Word) :=
  [[.replicate 8 1, .replicate 8 2], [.replicate 8 3],
    [.replicate 8 4, .replicate 8 5, .replicate 8 6]]

/-- The messages over sockets that accept three bytes and return five at a time, and the wire cut
within the third frame. -/
theorem feed_framing_survives_sample :
    let wire := (serveClient (.pieces 3) (threeMessages.map fun words => [words]) ⟨0, []⟩).wire
    wire.length = 60 ∧ (runLive (.pieces 5) ⟨0, wire, []⟩).1 = threeMessages.map wordBytes ∧
      (runLive (.pieces 5) ⟨0, wire.take 40, []⟩).1 = (threeMessages.take 2).map wordBytes := by
  intro wire
  obtain ⟨frames, whole, cuts⟩ :=
    @feed_framing_survives (.pieces 3) (.pieces 5) (Schedule.pieces_positive (by decide))
      (Schedule.pieces_positive (by decide)) threeMessages (by decide)
  obtain ⟨complete, few, delivered, before, after, _⟩ := cuts 40
  have two : ∀ complete < 4, ((threeMessages.take complete).flatMap frame).length ≤ 40 →
      (complete < 3 → 40 < ((threeMessages.take (complete + 1)).flatMap frame).length) →
      complete = 2 := by decide
  rw [two complete (Nat.lt_succ_of_le few) before after] at delivered
  exact ⟨(congrArg List.length frames).trans (by decide), whole, delivered⟩

end MarketSandbox
