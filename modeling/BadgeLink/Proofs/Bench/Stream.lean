import BadgeLink.Proofs.Bench.Firmware

/-!
# Streams of requests at a simulated badge

What a client sends to a badge is a stream of bytes, in which frames and the single bytes that ask
for a reset follow each other without any mark between them. A badge takes such a stream apart as it
was put together, wherever zeros stand in the payloads and checksums: each frame and each request to
reset is answered once, at its last byte.

* `Item` is what a stream is made of, and `answers` what a badge says to it.
* `feed_command` and `feed_reset` are one item, `feed_items` is a stream.
-/

namespace BadgeLink.Firmware

open Bench

/-- What a badge says to each of the bytes that it is fed. -/
def feed (f : Firmware) : List UInt8 → List (List UInt8) × Firmware
  | [] => ([], f)
  | b :: rest =>
    let (reply, f) := f.receive b
    let (replies, f) := f.feed rest
    (reply :: replies, f)

theorem feed_append (f : Firmware) (xs ys : List UInt8) :
    f.feed (xs ++ ys) = ((f.feed xs).1 ++ ((f.feed xs).2.feed ys).1, ((f.feed xs).2.feed ys).2) := by
  induction xs generalizing f with
  | nil => rfl
  | cons b xs ih => simp only [List.cons_append, feed, ih]

theorem feed_of_silence {f f' : Firmware} {data reply : List UInt8}
    (h : Feeds responder data f reply f') (hreply : reply = []) :
    f.feed data = (List.replicate data.length [], f') := by
  induction h with
  | nil => rfl
  | cons hb _ ih =>
    obtain ⟨rfl, rfl⟩ := List.append_eq_nil_iff.1 hreply
    simp only [feed, responder_eq_ok_iff.1 hb, ih rfl, List.length_cons, List.replicate_succ]

/-! ## Items -/

/-- An item of a stream: a command with a payload, or a request to reset. -/
inductive Item where
  | command (payload : List UInt8)
  | reset
deriving DecidableEq

namespace Item

/-- The bytes that a client sends for an item. -/
def encode : Item → Except Refusal (List UInt8)
  | command payload => Frame.encode payload
  | reset => .ok [Frame.resetRequest]

def payload? : Item → Option (List UInt8)
  | command payload => some payload
  | reset => none

end Item

/-- The payloads of the commands in a stream. -/
def payloads (items : List Item) : List (List UInt8) :=
  items.filterMap Item.payload?

@[simp]
theorem payloads_command (payload : List UInt8) (items : List Item) :
    payloads (.command payload :: items) = payload :: payloads items :=
  rfl

@[simp]
theorem payloads_reset (items : List Item) : payloads (.reset :: items) = payloads items :=
  rfl

/-- What a badge with a list of replies says to a stream: the replies in turn to the commands, and
success when there are no more. -/
def answers : List (List UInt8) → List Item → List (List UInt8)
  | _, [] => []
  | replies, .command _ :: items =>
    frame (replies.headD [ResponseKind.ok.code]) :: answers replies.tail items
  | replies, .reset :: items => [1, 1, 1] :: answers replies items

/-- Something is said to the last of a number of bytes, and nothing to the ones before. -/
def saidLast (bytes answer : List UInt8) : List (List UInt8) :=
  List.replicate (bytes.length - 1) [] ++ [answer]

/-- A badge after a stream. -/
def served (f : Firmware) (items : List Item) : Firmware :=
  { f with
    commands := (payloads items).reverse ++ f.commands
    replies := f.replies.drop (payloads items).length
    resets := f.resets + items.count .reset }

variable {f : Firmware}

theorem feed_command (hidle : f.buffer = []) {payload bytes : List UInt8}
    (hframe : Frame.encode payload = .ok bytes) :
    f.feed bytes = (saidLast bytes (frame f.nextReply), f.record payload) := by
  obtain ⟨begun, last, g, rfl, hbegun, hlast⟩ :=
    feeds_begun_frame hidle (Frame.encode_eq_ok_iff_frames.1 hframe)
  simp only [feed_append, feed_of_silence hbegun rfl, feed, hlast, saidLast, List.length_append,
    List.length_singleton, Nat.add_sub_cancel]

theorem feed_reset (hidle : f.buffer = []) (hhears : f.deafResets = 0) :
    f.feed [Frame.resetRequest] =
      (saidLast [Frame.resetRequest] [1, 1, 1], { f with resets := f.resets + 1 }) := by
  have hzero := receive_zero hhears hidle
  simp only [feed, Frame.resetRequest, CommandKind.code, hzero]
  rfl

/-! ## Streams -/

theorem served_command (payload : List UInt8) (items : List Item) :
    f.served (.command payload :: items) = (f.record payload).served items := by
  simp [served, record]

theorem served_reset (items : List Item) :
    f.served (.reset :: items) = { f with resets := f.resets + 1 }.served items := by
  simp [served, Nat.add_assoc, Nat.add_comm 1]

theorem length_answers (replies : List (List UInt8)) (items : List Item) :
    (answers replies items).length = items.length := by
  induction items generalizing replies with
  | nil => rfl
  | cons item items ih =>
    cases item with
    | command payload => simp only [answers, List.length_cons, ih]
    | reset => simp only [answers, List.length_cons, ih]

theorem encode_cons_eq_ok_iff {item : Item} {items : List Item} {parts : List (List UInt8)} :
    (item :: items).mapM Item.encode = .ok parts ↔
      ∃ bytes rest, item.encode = .ok bytes ∧ items.mapM Item.encode = .ok rest ∧
        parts = bytes :: rest := by
  rw [List.mapM_cons]
  cases item.encode with
  | error why => simp [bind, Except.bind]
  | ok bytes =>
    cases items.mapM Item.encode with
    | error why => simp [bind, Except.bind]
    | ok rest => simp [bind, Except.bind, pure, Except.pure, eq_comm]

/-- Commands with payloads of 1 to 255 bytes can be sent. -/
theorem exists_encode {items : List Item}
    (hsizes : ∀ payload, .command payload ∈ items → 1 ≤ payload.length ∧ payload.length ≤ 255) :
    ∃ parts, items.mapM Item.encode = .ok parts ∧ parts.length = items.length := by
  induction items with
  | nil => exact ⟨[], rfl, rfl⟩
  | cons item items ih =>
    obtain ⟨rest, hrest, hlength⟩ :=
      ih fun payload hmem => hsizes payload (List.mem_cons_of_mem item hmem)
    have hitem : ∃ bytes, item.encode = .ok bytes := by
      cases item with
      | command payload =>
        obtain ⟨hpos, hmax⟩ := hsizes payload List.mem_cons_self
        exact ⟨_, Frame.encode_eq_ok_iff.2 ⟨hpos, hmax, rfl⟩⟩
      | reset => exact ⟨_, rfl⟩
    obtain ⟨bytes, hbytes⟩ := hitem
    exact ⟨bytes :: rest, encode_cons_eq_ok_iff.2 ⟨bytes, rest, hbytes, hrest, rfl⟩,
      congrArg Nat.succ hlength⟩

/-- The induction is on the items: after each of them the badge is again between two frames and
hears reset requests. -/
theorem feed_items (hidle : f.buffer = []) (hhears : f.deafResets = 0) {items : List Item}
    {parts : List (List UInt8)} (hparts : items.mapM Item.encode = .ok parts) :
    f.feed parts.flatten =
      ((List.zipWith saidLast parts (answers f.replies items)).flatten, f.served items) := by
  induction items generalizing f parts with
  | nil =>
    cases hparts
    rfl
  | cons item items ih =>
    obtain ⟨bytes, rest, hitem, hrest, rfl⟩ := encode_cons_eq_ok_iff.1 hparts
    cases item with
    | command payload =>
      have hnext := ih (f := f.record payload) hidle hhears hrest
      rw [List.flatten_cons, feed_append, feed_command hidle hitem, hnext, served_command]
      rfl
    | reset =>
      cases hitem
      have hnext := ih (f := { f with resets := f.resets + 1 }) hidle hhears hrest
      rw [List.flatten_cons, feed_append, feed_reset hidle hhears, hnext, served_reset]
      rfl

/-- A badge that is between two frames and hears every reset request takes the commands and the
requests to reset out of a stream of them, in their order, for all payloads that a frame can have.
It answers each at its last byte and says nothing else, and is between two frames in the end. -/
theorem stream_delimited (f : Firmware) (hidle : f.buffer = []) (hhears : f.deafResets = 0)
    (items : List Item)
    (hsizes : ∀ payload, .command payload ∈ items → 1 ≤ payload.length ∧ payload.length ≤ 255) :
    ∃ parts, items.mapM Item.encode = .ok parts ∧
      parts.length = items.length ∧ (answers f.replies items).length = items.length ∧
      f.feed parts.flatten =
        ((List.zipWith saidLast parts (answers f.replies items)).flatten,
          { f with
            commands := (payloads items).reverse ++ f.commands
            replies := f.replies.drop (payloads items).length
            resets := f.resets + items.count .reset
            buffer := [] }) := by
  obtain ⟨parts, hparts, hlength⟩ := exists_encode hsizes
  refine ⟨parts, hparts, hlength, length_answers f.replies items, ?_⟩
  rw [feed_items hidle hhears hparts, served, hidle]

/-- Zeros in payloads and as checksums, between requests to reset. -/
theorem stream_of_zeros :
    [.command [0, 0], .reset, .command [0], .command [5, 5], .reset].mapM Item.encode =
        .ok [[2, 0, 0, 0], [0], [1, 0, 0], [2, 5, 5, 0], [0]] ∧
    Firmware.feed { commands := [[9]], replies := [[2, 7], [3]], resets := 4 }
        [2, 0, 0, 0, 0, 1, 0, 0, 2, 5, 5, 0, 0] =
      ([[], [], [], [2, 2, 7, 5], [1, 1, 1], [], [], [1, 3, 3], [], [], [], [1, 2, 2], [1, 1, 1]],
        { commands := [[5, 5], [0], [0, 0], [9]], resets := 6 }) := by
  obtain ⟨parts, hparts, -, -, hfeed⟩ :=
    stream_delimited { commands := [[9]], replies := [[2, 7], [3]], resets := 4 } rfl rfl
      [.command [0, 0], .reset, .command [0], .command [5, 5], .reset] (by simp)
  cases hparts
  exact ⟨rfl, hfeed⟩

end BadgeLink.Firmware
