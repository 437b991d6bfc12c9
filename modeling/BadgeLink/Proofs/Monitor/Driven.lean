import BadgeLink.Proofs.Monitor.Client
import BadgeLink.Proofs.Monitor.Willing
import BadgeLink.Proofs.Lists

/-!
# Programs that are answered

What a program does when every word that it reads is answered, by a device that delivers the words
of a given sequence one after the other, on a port that works. Ports may be slow and reads may fail
transiently. Then the sequence alone determines what is sent, how many words are read and how the
program ends.

* `Link.Delivers` is the assumption about the device, and `Channel.Served` that about the port.
* `Driven` states that such conversations exist, and what every one of them is.
* `Driven.bind` composes programs: the second continues with the words that the first left.
-/

namespace BadgeLink

open Dialogue

namespace Link

/-- The answers in which the first words of a sequence are delivered. -/
def wordAnswers (w : Nat → UInt32) (count : Nat) : List (List UInt8) :=
  (List.range count).map fun j => Word.littleEndian (w j)

/-- In the conversation the port delivered nothing but the words of a sequence, in their order. -/
def Delivers (w : Nat → UInt32) (es : List (Exchange interface)) : Prop :=
  ∃ count, received es <+: (wordAnswers w count).flatten

@[simp] theorem filterMap_gotByte_sent (bytes : List UInt8) :
    (bytes.map Signal.sent).filterMap gotByte? = [] := by
  induction bytes with
  | nil => rfl
  | cons b bytes ih => exact ih

@[simp] theorem filterMap_gotByte_got (bytes : List UInt8) :
    (bytes.map Signal.got).filterMap gotByte? = bytes := by
  induction bytes with
  | nil => rfl
  | cons b bytes ih => exact congrArg (b :: ·) ih

/-! ## Answers of words -/

variable {w : Nat → UInt32}

theorem wordAnswers_add (w : Nat → UInt32) (m n : Nat) :
    wordAnswers w (m + n) = wordAnswers w m ++ wordAnswers (fun j => w (m + j)) n := by
  simp [wordAnswers, List.range_add]

/-- The first word that is delivered whole is the first of the sequence. -/
theorem eq_littleEndian_of_prefix {data : List UInt8} (hdata : data.length = 4) {count : Nat}
    (h : data <+: (wordAnswers w count).flatten) : data = Word.littleEndian (w 0) := by
  cases count with
  | zero =>
    rw [List.prefix_nil.1 h] at hdata
    cases hdata
  | succ count =>
    have hfirst : (wordAnswers w (count + 1)).flatten =
        Word.littleEndian (w 0) ++ (wordAnswers (fun j => w (1 + j)) count).flatten := by
      rw [Nat.add_comm, wordAnswers_add, List.flatten_append]
      rfl
    rw [hfirst] at h
    have hprefix := List.prefix_of_prefix_length_le h (List.prefix_append _ _) (Nat.le_of_eq hdata)
    exact hprefix.eq_of_length hdata

theorem Delivers.left {es es' : List (Exchange interface)} (h : Delivers w (es ++ es')) :
    Delivers w es := by
  obtain ⟨count, h⟩ := h
  rw [received_append] at h
  exact ⟨count, (List.prefix_append _ _).trans h⟩

/-- Once some first words were delivered, the port goes on with those after them. -/
theorem delivers_append_iff {es es' : List (Exchange interface)} {m : Nat}
    (h : received es = (wordAnswers w m).flatten) :
    Delivers w (es ++ es') ↔ Delivers (fun j => w (m + j)) es' := by
  have hsplit : ∀ count, (wordAnswers w (m + count)).flatten =
      (wordAnswers w m).flatten ++ (wordAnswers (fun j => w (m + j)) count).flatten := by
    intro count
    rw [wordAnswers_add, List.flatten_append]
  constructor
  · rintro ⟨count, hprefix⟩
    have hmore : (wordAnswers w count).flatten <+: (wordAnswers w (m + count)).flatten := by
      rw [Nat.add_comm, wordAnswers_add, List.flatten_append]
      exact List.prefix_append _ _
    have hall := hprefix.trans hmore
    rw [received_append, h, hsplit] at hall
    exact ⟨count, (List.prefix_append_right_inj _).1 hall⟩
  · rintro ⟨count, hprefix⟩
    refine ⟨m + count, ?_⟩
    rw [received_append, h, hsplit]
    exact (List.prefix_append_right_inj _).2 hprefix

end Link

namespace Monitor

open Link

/-! ## What a trace received -/

/-- The bytes of its answer that an event received. -/
def Event.answer : Event → List UInt8
  | whole _ answer | broken _ _ answer => answer
  | told _ => []

theorem Event.received_signals (e : Event) : e.signals.filterMap gotByte? = e.answer := by
  cases e with
  | whole c answer | broken c sent answer =>
    simp only [signals, Event.answer, List.filterMap_append, filterMap_gotByte_sent,
      filterMap_gotByte_got, List.nil_append]
  | told p => rfl

theorem Carries.received_eq {es : List (Exchange interface)} {evs : List Event}
    (h : Carries (Link.signals es) evs) : Link.received es = evs.flatMap Event.answer := by
  rw [Link.received, h.signals_eq, List.filterMap_flatMap]
  simp only [Event.received_signals]

/-! ## Programs driven by a sequence of words -/

variable {α β : Type} {c : Channel} {w : Nat → UInt32}

/-- The program can be answered by the words of a sequence on a port that does at once what it is
asked. Whenever it is answered by them on a port that works, it reads the first `count` of them, its
trace is `evs` and it ends with `o`. -/
structure Driven (c : Channel) (w : Nat → UInt32) (p : Link α) (count : Nat) (evs : List Event)
    (o : Outcome LinkError α) : Prop where
  exists_plays : ∃ es, p.Plays es o ∧ Link.received es = (wordAnswers w count).flatten ∧
    ∀ e ∈ es, Prompt e
  unique : ∀ es o', p.Plays es o' → Delivers w es → c.Served es →
    Carries (signals es) evs ∧ Link.received es = (wordAnswers w count).flatten ∧ o' = o

/-- A program that asks nothing reads nothing. -/
theorem driven_done (o : Outcome LinkError α) : Driven c w (done o) 0 [] o := by
  refine ⟨⟨[], .done o, rfl, List.forall_mem_nil _⟩, ?_⟩
  intro es o' hplays _ _
  cases hplays
  exact ⟨.nil, rfl, rfl⟩

namespace Driven

variable {p : Link α} {f : α → Link β} {m n : Nat} {evs evs' : List Event}

/-- The two parts of `Driven` are about the same conversations: the one that exists is answered by
the sequence, on a port that works. -/
theorem exists_served {o : Outcome LinkError α} (h : Driven c w p n evs o)
    (hpatience : 0 < c.patience) : ∃ es, p.Plays es o ∧ Delivers w es ∧ c.Served es := by
  obtain ⟨es, hes, hreceived, hprompt⟩ := h.exists_plays
  exact ⟨es, hes, ⟨n, hreceived ▸ List.prefix_refl _⟩, Channel.served_of_prompt hpatience hprompt⟩

/-- The second program of a sequence continues with the words that the first left. -/
theorem bind {a : α} {o : Outcome LinkError β} (hp : Driven c w p m evs (.ok a))
    (hf : Driven c (fun j => w (m + j)) (f a) n evs' o) :
    Driven c w (p.bind f) (m + n) (evs ++ evs') o := by
  have hwords : ∀ {es es'}, Link.received es = (wordAnswers w m).flatten →
      Link.received es' = (wordAnswers (fun j => w (m + j)) n).flatten →
      Link.received (es ++ es') = (wordAnswers w (m + n)).flatten := by
    intro es es' h h'
    rw [received_append, h, h', wordAnswers_add, List.flatten_append]
  constructor
  · obtain ⟨es, hes, hreceived, hprompt⟩ := hp.exists_plays
    obtain ⟨es', hes', hreceived', hprompt'⟩ := hf.exists_plays
    refine ⟨es ++ es', plays_bind_iff.2 (.inl ⟨a, es, es', rfl, hes, hes'⟩),
      hwords hreceived hreceived', fun e he => ?_⟩
    exact (List.mem_append.1 he).elim (hprompt e) (hprompt' e)
  · intro es o' hplays hdelivers hserved
    rcases plays_bind_iff.1 hplays with ⟨b, es₁, es₂, rfl, h₁, h₂⟩ | ⟨e, h₁, rfl⟩ | ⟨x, h₁, rfl⟩
    -- the first program took exactly its words, so the rest were delivered to the second
    · obtain ⟨hevs, hreceived, hvalue⟩ := hp.unique es₁ _ h₁ hdelivers.left hserved.left
      cases hvalue
      have hrest := (delivers_append_iff hreceived).1 hdelivers
      obtain ⟨hevs', hreceived', rfl⟩ := hf.unique es₂ o' h₂ hrest hserved.right
      refine ⟨?_, hwords hreceived hreceived', rfl⟩
      rw [signals_append]
      exact hevs.append hevs'
    · exact nomatch (hp.unique es _ h₁ hdelivers hserved).2.2
    · exact nomatch (hp.unique es _ h₁ hdelivers hserved).2.2

/-- An error of the first program of a sequence is the error of the sequence. -/
theorem bind_error {e : LinkError} (hp : Driven c w p m evs (.error e)) (f : α → Link β) :
    Driven c w (p.bind f) m evs (.error e) := by
  constructor
  · obtain ⟨es, hes, hanswered⟩ := hp.exists_plays
    exact ⟨es, plays_bind_iff.2 (.inr (.inl ⟨e, hes, rfl⟩)), hanswered⟩
  · intro es o' hplays hdelivers hserved
    rcases plays_bind_iff.1 hplays with ⟨b, es₁, es₂, rfl, h₁, h₂⟩ | ⟨e', h₁, rfl⟩ | ⟨x, h₁, rfl⟩
    · exact nomatch (hp.unique es₁ _ h₁ hdelivers.left hserved.left).2.2
    · obtain ⟨hevs, hreceived, hend⟩ := hp.unique es _ h₁ hdelivers hserved
      cases hend
      exact ⟨hevs, hreceived, rfl⟩
    · exact nomatch (hp.unique es _ h₁ hdelivers hserved).2.2

/-- A second program that does nothing but end leaves the trace of the first. -/
theorem bind_end {a : α} {o : Outcome LinkError β} (hp : Driven c w p m evs (.ok a))
    (hf : Driven c (fun j => w (m + j)) (f a) 0 [] o) : Driven c w (p.bind f) m evs o := by
  have h := hp.bind hf
  rw [List.append_nil] at h
  exact h

theorem discard {a : α} (hp : Driven c w p m evs (.ok a)) :
    Driven c w (discard p) m evs (.ok ()) :=
  hp.bind_end (driven_done _)

end Driven

theorem driven_note_bind {r : Record} {f : Unit → Link α} {count : Nat} {evs : List Event}
    {o : Outcome LinkError α} (h : Driven c w (f ()) count evs o) :
    Driven c w ((note r).bind f) count evs o := by
  constructor
  · obtain ⟨es, hes, hreceived, hprompt⟩ := h.exists_plays
    exact ⟨_, .ask (a := ()) hes, hreceived, List.forall_mem_cons.2 ⟨trivial, hprompt⟩⟩
  · intro es o' hplays hdelivers hserved
    cases hplays with
    | @ask _ _ _ rest _ hplays => exact h.unique rest o' hplays hdelivers hserved.tail

theorem driven_lift_bind {x : Except Crash α} {a : α} (hx : x = .ok a) {f : α → Link β} {count : Nat}
    {evs : List Event} {o : Outcome LinkError β} (h : Driven c w (f a) count evs o) :
    Driven c w (Dialogue.bind (liftM x : Link α) f) count evs o := by
  subst hx
  exact h

/-! ## Words that are read and written -/

variable {m : Monitor}

theorem received_whole {es : List (Exchange interface)} {c : Command} {answer : List UInt8}
    (h : Carries (signals es) [.whole c answer]) : Link.received es = answer := by
  rw [h.received_eq]
  exact List.append_nil answer

/-- A word that is read on a port that works is read whole. -/
theorem readWord_of_served {address : UInt32} {es : List (Exchange interface)}
    {o : Outcome LinkError UInt32} (hserved : m.channel.Served es)
    (hplays : (m.readWord address).Plays es o) : ∃ value, o = .ok value := by
  have hsend : ∀ {es' o'}, m.channel.Served es' → (m.issue (.readWord address)).Plays es' o' →
      o' = .ok () := fun h => h.send
  have hreceive : ∀ {es' o'}, m.channel.Served es' → (m.channel.receive 4).Plays es' o' →
      ∃ data, o' = .ok data := fun h => h.receive (by decide)
  rcases plays_bind_iff.1 hplays with ⟨_, es₁, es₂, rfl, -, h₂⟩ | ⟨e, h₁, -⟩ | ⟨x, h₁, -⟩
  · rcases plays_bind_iff.1 h₂ with ⟨data, es₂, es₃, rfl, -, h₃⟩ | ⟨e, h₂, -⟩ | ⟨x, h₂, -⟩
    · obtain ⟨rest, rfl, hdone⟩ := Channel.plays_note_bind_iff.1 h₃
      cases hdone
      exact ⟨_, rfl⟩
    · exact nomatch hreceive hserved.right h₂
    · exact nomatch hreceive hserved.right h₂
  · exact nomatch hsend hserved h₁
  · exact nomatch hsend hserved h₁

/-- A word that is written on a port that works is written whole. -/
theorem writeWord_of_served {address value : UInt32} {es : List (Exchange interface)}
    {o : Outcome LinkError Unit} (hserved : m.channel.Served es)
    (hplays : (m.writeWord address value).Plays es o) : o = .ok () := by
  obtain ⟨rest, rfl, hsend⟩ := Channel.plays_note_bind_iff.1 hplays
  exact hserved.tail.send hsend

/-- A read takes the next word of the sequence. -/
theorem driven_readWord (hpatience : 0 < m.channel.patience) (address : UInt32) :
    Driven m.channel w (m.readWord address) 1
      [.whole (.readWord address) (Word.littleEndian (w 0))] (.ok (w 0)) := by
  have hone : (wordAnswers w 1).flatten = Word.littleEndian (w 0) := rfl
  constructor
  · obtain ⟨es, hes, hprompt⟩ := promptly_readWord hpatience address (w 0)
    obtain ⟨evs, hevs, data, hdata, rfl, hvalue⟩ := m.traces_readWord address es _ hes
    refine ⟨es, hes, ?_, hprompt⟩
    rw [received_whole hevs, hone, hvalue, Word.littleEndian_ofLittleEndian hdata]
  · intro es o hplays hdelivers hserved
    obtain ⟨value, rfl⟩ := readWord_of_served hserved hplays
    obtain ⟨evs, hevs, data, hdata, rfl, rfl⟩ := m.traces_readWord address es _ hplays
    obtain ⟨count, hprefix⟩ := hdelivers
    rw [received_whole hevs] at hprefix
    obtain rfl := eq_littleEndian_of_prefix hdata hprefix
    rw [Word.ofLittleEndian_littleEndian, received_whole hevs]
    exact ⟨hevs, hone.symm, rfl⟩

theorem driven_writeWord (hpatience : 0 < m.channel.patience) (address value : UInt32) :
    Driven m.channel w (m.writeWord address value) 0 [.whole (.writeWord address value) []]
      (.ok ()) := by
  constructor
  · obtain ⟨es, hes, hprompt⟩ := promptly_writeWord hpatience address value
    obtain ⟨evs, hevs, rfl⟩ := m.traces_writeWord address value es _ hes
    exact ⟨es, hes, received_whole hevs, hprompt⟩
  · intro es o hplays _ hserved
    obtain rfl := writeWord_of_served hserved hplays
    obtain ⟨evs, hevs, rfl⟩ := m.traces_writeWord address value es _ hplays
    exact ⟨hevs, received_whole hevs, rfl⟩

/-- A write leaves all words to the program after it. -/
theorem driven_writeWord_bind (hpatience : 0 < m.channel.patience) {address value : UInt32}
    {f : Unit → Link α} {count : Nat} {evs : List Event} {o : Outcome LinkError α}
    (h : Driven m.channel w (f ()) count evs o) :
    Driven m.channel w ((m.writeWord address value).bind f) count
      (.whole (.writeWord address value) [] :: evs) o := by
  have hshift : (fun j => w (0 + j)) = w := by simp only [Nat.zero_add]
  rw [← hshift] at h
  have hboth := (driven_writeWord hpatience address value).bind h
  rw [Nat.zero_add] at hboth
  exact hboth

end Monitor

end BadgeLink
