import BadgeLink.Console.Run
import BadgeLink.Proofs.Link.Signal

/-!
# The port behind the console

A client on the port says to the device what it says on its link: its conversation at the console
shows the same signals, for log records and transient faults show none. Whatever else the command
line program does, opening the port and reading files included, shows none either.

* `Console.signals` reads the signals of the port off a conversation at the console.
* `plays_onPort`: a client on the port has one of its conversations.
-/

namespace BadgeLink.Console

open Dialogue

variable {α β : Type}

/-- An exchange with the port, as the link sees it. -/
def portExchange? : Exchange interface → Option (Exchange Link.interface)
  | ⟨.port q, a⟩ => some ⟨q, a⟩
  | _ => none

/-- The signals of the port in a conversation at the console. -/
def signals (es : List (Exchange interface)) : List Signal :=
  Link.signals (es.filterMap portExchange?)

@[simp] theorem signals_nil : signals [] = [] := rfl

@[simp] theorem signals_append (es₁ es₂ : List (Exchange interface)) :
    signals (es₁ ++ es₂) = signals es₁ ++ signals es₂ := by
  rw [signals, List.filterMap_append, Link.signals_append]
  rfl

/-! ## Programs that leave the port alone -/

/-- Whatever it is answered, the program shows nothing on the port. -/
def Silent (p : Console α) : Prop :=
  ∀ es o, p.Plays es o → signals es = []

theorem silent_done (o : Outcome Error α) : Silent (done o) := by
  intro es o h
  cases h
  rfl

theorem silent_ask {q : Request} {next : Answer q → Console α}
    (hq : ∀ a, portExchange? ⟨q, a⟩ = none) (h : ∀ a, Silent (next a)) : Silent (ask q next) := by
  intro es o hp
  cases hp with
  | ask hp =>
    rw [signals, List.filterMap_cons, hq]
    exact h _ _ _ hp

theorem Silent.bind {p : Console α} {f : α → Console β} (hp : Silent p) (hf : ∀ a, Silent (f a)) :
    Silent (p.bind f) := by
  intro es o h
  rcases plays_bind_iff.1 h with ⟨a, es₁, es₂, rfl, h₁, h₂⟩ | ⟨e, h₁, -⟩ | ⟨c, h₁, -⟩
  · rw [signals_append, hp _ _ h₁, hf a _ _ h₂]
    rfl
  · exact hp _ _ h₁
  · exact hp _ _ h₁

/-- Where a program that shows nothing stands first, only what follows it shows something. -/
theorem Silent.plays_bind {p : Console α} {f : α → Console β} (hp : Silent p)
    {es : List (Exchange interface)} {o : Outcome Error β} (h : (p.bind f).Plays es o) :
    (signals es = [] ∧ ∀ b, o ≠ .ok b) ∨
      ∃ a es₁ es₂, es = es₁ ++ es₂ ∧ signals es₁ = [] ∧ (f a).Plays es₂ o := by
  rcases plays_bind_iff.1 h with ⟨a, es₁, es₂, rfl, h₁, h₂⟩ | ⟨e, h₁, rfl⟩ | ⟨c, h₁, rfl⟩
  · exact .inr ⟨a, es₁, es₂, rfl, hp _ _ h₁, h₂⟩
  · exact .inl ⟨hp _ _ h₁, nofun⟩
  · exact .inl ⟨hp _ _ h₁, nofun⟩

theorem Silent.attempt {p : Console α} (hp : Silent p) :
    Silent (p.attempt : Console (Except Error α)) := by
  intro es o h
  obtain ⟨o', h', -⟩ := plays_attempt h
  exact hp _ _ h'

theorem Silent.tryCatch {p : Console α} {handle : Error → Console α} (hp : Silent p)
    (hhandle : ∀ e, Silent (handle e)) : Silent (tryCatch p handle) := by
  refine Silent.bind hp.attempt fun r => ?_
  cases r with
  | ok a => exact silent_done _
  | error e => exact hhandle e

theorem silent_log (threshold : Option Level) (level : Level) (text : String) :
    Silent (log threshold level text) := by
  unfold log
  split
  · refine silent_ask (fun _ => rfl) fun seconds => ?_
    dsimp only
    split
    · exact silent_ask (fun _ => rfl) fun _ => silent_done _
    · exact silent_ask (fun _ => rfl) fun _ => silent_done _
  · exact silent_done _

theorem silent_print (line : String) : Silent (print line) :=
  silent_ask (fun _ => rfl) fun _ => silent_done _

theorem silent_demand {step : Console (Except SetupFault Unit)} (hstep : Silent step) :
    Silent (demand step) := by
  refine Silent.bind hstep fun r => ?_
  cases r with
  | ok _ => exact silent_done _
  | error f => exact silent_done _

theorem silent_openChannel (i : Invocation) (path : String) : Silent (openChannel i path) := by
  have hask : ∀ q : Request, (∀ a, portExchange? ⟨q, a⟩ = none) →
      Silent (ask q fun a => done (.ok a) : Console (Answer q)) :=
    fun q hq => silent_ask hq fun _ => silent_done _
  unfold openChannel
  refine Silent.bind (silent_demand (hask (.openPort path) fun _ => rfl)) fun _ => ?_
  refine Silent.bind (silent_demand (hask .readSettings fun _ => rfl)) fun _ => ?_
  refine Silent.bind (silent_demand (hask (.setBaud i.baud) fun _ => rfl)) fun _ => ?_
  refine Silent.bind (silent_demand (hask (.writeSettings ⟨i.baud⟩) fun _ => rfl)) fun _ => ?_
  refine Silent.bind (silent_demand (hask (.setReadTimeout _) fun _ => rfl)) fun _ => ?_
  exact silent_done _

/-- Wherever the port is opened, its channel has the timing that was asked for. -/
theorem returns_openChannel (i : Invocation) (path : String) :
    Returns (openChannel i path) fun c => c = { options := i.options } := by
  unfold openChannel
  simp only [bind_eq]
  apply returns_bind
  intro _
  apply returns_bind
  intro _
  apply returns_bind
  intro _
  apply returns_bind
  intro _
  apply returns_bind
  intro _
  exact returns_ok rfl

/-! ## Clients on the port -/

theorem signal_settleReading (r : Reading) :
    Link.signal? ⟨.read, settleReading r⟩ = Link.signal? ⟨.read, r⟩ := by
  cases r with
  | byte b => rfl
  | idle => rfl
  | fault f =>
    unfold settleReading
    dsimp only
    split <;> rfl

theorem signal_settleAcceptance (b : UInt8) (r : Acceptance) :
    Link.signal? ⟨.write b, settleAcceptance r⟩ = Link.signal? ⟨.write b, r⟩ := by
  cases r with
  | done => rfl
  | busy => rfl
  | fault f =>
    unfold settleAcceptance
    dsimp only
    split <;> rfl

theorem plays_log {threshold : Option Level} {level : Level} {text : String}
    {es : List (Exchange interface)} {o : Outcome Error Unit}
    (h : (log threshold level text).Plays es o) : o = .ok () := by
  unfold log at h
  split at h
  · cases h with
    | ask h =>
      dsimp only at h
      split at h <;> cases h with
      | ask h =>
        cases h
        rfl
  · cases h
    rfl

/-- A request of a client ends with an answer, and shows what this answer shows on the link. -/
theorem plays_answer {threshold : Option Level} {q : Link.Request}
    {es : List (Exchange interface)} {o : Outcome Error (Link.Answer q)}
    (h : (answer threshold q).Plays es o) :
    ∃ a, o = .ok a ∧ signals es = Link.signals [⟨q, a⟩] := by
  cases q with
  | read =>
    cases h with
    | @ask _ _ r _ _ h =>
      cases h
      refine ⟨settleReading r, rfl, ?_⟩
      rw [Link.signals_cons, signal_settleReading]
      exact Link.signals_cons ⟨.read, r⟩ []
  | write b =>
    cases h with
    | @ask _ _ r _ _ h =>
      cases h
      refine ⟨settleAcceptance r, rfl, ?_⟩
      rw [Link.signals_cons, signal_settleAcceptance]
      exact Link.signals_cons ⟨.write b, r⟩ []
  | flush =>
    cases h with
    | @ask _ _ r _ _ h =>
      cases h
      exact ⟨settleAcceptance r, rfl, rfl⟩
  | pause ms =>
    cases h with
    | ask h =>
      cases h
      exact ⟨(), rfl, rfl⟩
  | now =>
    cases h with
    | @ask _ _ t _ _ h =>
      cases h
      exact ⟨t, rfl, rfl⟩
  | note r => exact ⟨(), plays_log h, silent_log _ _ _ _ _ h⟩
  | report p =>
    cases h with
    | ask h =>
      cases h
      exact ⟨(), rfl, rfl⟩

/-- A client on the port has one of its conversations. -/
theorem plays_onPort {threshold : Option Level} {work : Link α} {es : List (Exchange interface)}
    {o : Outcome Error α} (h : (onPort threshold work).Plays es o) :
    ∃ es' o', work.Plays es' o' ∧ signals es = Link.signals es' ∧ o = o'.mapError .link := by
  unfold onPort at h
  induction work generalizing es with
  | done r =>
    cases r <;> cases h <;> exact ⟨[], _, .done _, rfl, rfl⟩
  | ask q next ih =>
    rcases plays_bind_iff.1 h with ⟨a, es₁, es₂, rfl, h₁, h₂⟩ | ⟨e, h₁, -⟩ | ⟨c, h₁, -⟩
    · obtain ⟨a', ha, hsignals⟩ := plays_answer h₁
      obtain rfl := Outcome.ok.inj ha
      obtain ⟨es', o', hplays, hrest, rfl⟩ := ih a h₂
      refine ⟨_, o', .ask hplays, ?_, rfl⟩
      rw [signals_append, hsignals, hrest, ← Link.signals_append]
      rfl
    · obtain ⟨_, ha, -⟩ := plays_answer h₁
      cases ha
    · obtain ⟨_, ha, -⟩ := plays_answer h₁
      cases ha

/-- What a client on the port shows comes before what follows it, and something follows it only if
it ended with a value. -/
theorem plays_onPort_bind {threshold : Option Level} {work : Link α} {f : α → Console β}
    {es : List (Exchange interface)} {o : Outcome Error β}
    (h : ((onPort threshold work).bind f).Plays es o) :
    ∃ es' o', work.Plays es' o' ∧ (signals es = Link.signals es' ∧ (∀ b, o ≠ .ok b) ∨
      ∃ a rest, o' = .ok a ∧ signals es = Link.signals es' ++ signals rest ∧ (f a).Plays rest o) := by
  rcases plays_bind_iff.1 h with ⟨a, es₁, es₂, rfl, h₁, h₂⟩ | ⟨e, h₁, rfl⟩ | ⟨c, h₁, rfl⟩
  · obtain ⟨es', o', hplays, hshown, ho⟩ := plays_onPort h₁
    refine ⟨es', o', hplays, .inr ⟨a, es₂, Outcome.mapError_eq_ok.1 ho.symm, ?_, h₂⟩⟩
    rw [signals_append, hshown]
  · obtain ⟨es', o', hplays, hshown, -⟩ := plays_onPort h₁
    exact ⟨es', o', hplays, .inl ⟨hshown, nofun⟩⟩
  · obtain ⟨es', o', hplays, hshown, -⟩ := plays_onPort h₁
    exact ⟨es', o', hplays, .inl ⟨hshown, nofun⟩⟩

/-! ## Conversations with a port that is settled -/

/-- The answer is the same at the console as on the link. -/
def Settled : Exchange Link.interface → Prop
  | ⟨.read, r⟩ => settleReading r = r
  | ⟨.write _, r⟩ => settleAcceptance r = r
  | ⟨.flush, r⟩ => settleAcceptance r = r
  | _ => True

theorem yields_print (line : String) : Yields (print line) () :=
  yields_ask () (yields_ok ())

theorem yields_log (threshold : Option Level) (level : Level) (text : String) :
    Yields (log threshold level text) () := by
  unfold log
  split
  · refine yields_ask (0 : Nat) ?_
    dsimp only
    split
    · exact yields_ask () (yields_ok ())
    · exact yields_print _
  · exact yields_ok ()

theorem yields_answer {threshold : Option Level} {q : Link.Request} {a : Link.Answer q}
    (h : Settled ⟨q, a⟩) : Yields (answer threshold q) a := by
  have hport : ∀ q (a : Link.Answer q), Yields (port q) a :=
    fun q a => yields_ask a (yields_ok a)
  cases q with
  | read =>
    have hsettled : settleReading a = a := h
    rw [← hsettled]
    exact ⟨[⟨.port .read, a⟩], .ask (.done _)⟩
  | write b =>
    have hsettled : settleAcceptance a = a := h
    rw [← hsettled]
    exact ⟨[⟨.port (.write b), a⟩], .ask (.done _)⟩
  | flush =>
    have hsettled : settleAcceptance a = a := h
    rw [← hsettled]
    exact ⟨[⟨.port .flush, a⟩], .ask (.done _)⟩
  | pause ms => exact hport (.pause ms) a
  | now => exact hport .now a
  | note r => exact yields_log _ _ _
  | report p => exact hport (.report p) a

/-- A client on the port can have the conversations in which nothing has to be settled. -/
theorem yields_onPort {threshold : Option Level} {work : Link α} {a : α}
    {es : List (Exchange Link.interface)} (h : work.Plays es (.ok a)) (hes : ∀ e ∈ es, Settled e) :
    Yields (onPort threshold work) a := by
  unfold onPort
  generalize ho : Outcome.ok a = o at h
  induction h with
  | done o =>
    subst ho
    exact yields_ok a
  | ask _ ih =>
    obtain ⟨hfirst, hrest⟩ := List.forall_mem_cons.1 hes
    exact (yields_answer hfirst).bind (ih hrest ho)

end BadgeLink.Console
