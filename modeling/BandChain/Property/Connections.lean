import BandChain.Net.Server
import BandChain.Property.Framing

/-!
However the events of the connections interleave, the application handles the requests one after the
other, and every client gets the answers to its own, in the order in which it asked.
-/

namespace BandChain

open Incremental (Drains)
open TmApp (nextRequest nextRequest_eq_some takeRequest)

/-- A request that was handled, with the connection that it came on and what it was answered with. -/
structure Handled where
  connection : Nat
  request : ByteString
  reply : ByteString

/-- What was handled for one connection. -/
def forConnection (i : Nat) (log : List Handled) : List Handled := log.filter fun h => h.connection = i

/-- The requests of the log are those that are complete in what arrived, and the client was sent the answers, up to
those that are still to be written. -/
structure Connection.Served (c : Connection) (log : List Handled) : Prop where
  requests : Drains nextRequest c.received (log.map fun h => h.request) c.readBuffer
  waits : (takeRequest c.readBuffer).1 = .ok none
  replies : c.sent ++ c.writeBuffer = stream (log.map fun h => h.reply)
  reads : c.waiting = .read → c.writeBuffer = []

/-- The log is one order in which the application handled all requests. -/
structure Server.Handles {σ : Type} (handle : ByteString → Exec Stop σ ByteString) (start : σ) (s : Server σ) (log : List Handled) :
    Prop where
  answered : answerAll handle (log.map fun h => h.request) start = (.ok (log.map fun h => h.reply), s.app)
  served : ∀ (i : Nat) (c : Connection), s.connections[i]? = some c → c.Served (forConnection i log)
  known : ∀ h ∈ log, h.connection < s.connections.length

/-- What is next on a buffer cannot be taken off it: more would be erased than is there, or nothing is. -/
def TmApp.Overrun (buf : ByteString) : Prop :=
  match takeRequest buf with
  | (.ok none, _) => False
  | (.ok (some _), rest) => rest = buf
  | (.error _, _) => True

/-- The first of the requests on the buffer is not answered, or there is none and what follows cannot be taken off. -/
def Ends {σ : Type} (handle : ByteString → Exec Stop σ ByteString) (app : σ) (tail : ByteString) : List ByteString → Prop
  | request :: _ => ∃ e, (handle request app).1 = .error e
  | [] => TmApp.Overrun tail

/-- On some connection, what follows the requests of the log is not answered, or cannot be taken off. -/
def Server.Stopped {σ : Type} (handle : ByteString → Exec Stop σ ByteString) (start : σ) (s : Server σ) (log : List Handled) : Prop :=
  ∃ app i c left tail, s.connections[i]? = some c ∧
    Drains nextRequest c.received (((forConnection i log).map fun h => h.request) ++ left) tail ∧
    answerAll handle (log.map fun h => h.request) start = (.ok (log.map fun h => h.reply), app) ∧ Ends handle app tail left

/-! ### The front of a buffer -/

namespace TmApp

theorem go_drop {left buf rest : ByteString} {idx val : Nat} {size : Int} (found : readAhead.go left idx val buf = (.ok (some size), rest)) :
    ∃ n, rest = buf.drop n := by
  induction left generalizing idx val with
  | nil => cases found
  | cons raw left ih =>
    unfold readAhead.go at found
    by_cases last : raw.toNat &&& 0x80 = 0
    · simp only [if_pos last] at found
      exact ⟨_, (consume_ok (found_ok found).2.1).2⟩
    · simp only [if_neg last] at found
      exact ih found

/-- A request leaves less of the buffer, or it takes no byte. -/
theorem takeRequest_shorter {buf payload rest : ByteString} (taken : takeRequest buf = (.ok (some payload), rest)) :
    rest.length < buf.length ∨ rest = buf := by
  obtain ⟨size, mid, read, consumed, -⟩ := takeRequest_some taken
  obtain ⟨n, rfl⟩ := go_drop (show readAhead.go buf 0 0 buf = _ from read)
  rw [(consume_ok consumed).2, List.drop_drop]
  rcases Nat.eq_zero_or_pos (n + size.toNat) with none | some
  · exact Or.inr (by rw [none, List.drop_zero])
  · rcases buf with _ | ⟨raw, buf⟩
    · exact Or.inr (List.drop_nil ..)
    · refine Or.inl ?_
      rw [List.length_drop, List.length_cons]
      omega

/-- Where no request is taken off, more has to arrive, or never will be taken. -/
theorem waits_or_overrun {buf : ByteString} (stuck : nextRequest buf = none) : (takeRequest buf).1 = .ok none ∨ Overrun buf := by
  unfold Overrun
  rcases taken : takeRequest buf with ⟨e | _ | payload, rest⟩
  · exact Or.inr trivial
  · exact Or.inl rfl
  · refine Or.inr ((takeRequest_shorter taken).resolve_left fun shorter => ?_)
    cases stuck.symm.trans (nextRequest_eq_some.mpr ⟨taken, shorter⟩)

end TmApp

section

variable {σ : Type} {handle : ByteString → Exec Stop σ ByteString}

theorem answerAll_of_append {first second replies replies' : List ByteString} {app mid last : σ}
    (before : answerAll handle first app = (.ok replies, mid)) (after : answerAll handle second mid = (.ok replies', last)) :
    answerAll handle (first ++ second) app = (.ok (replies ++ replies'), last) := by
  induction first generalizing app replies with
  | nil =>
    obtain ⟨same, rfl⟩ := Prod.mk.inj before
    obtain rfl := Except.ok.inj same
    exact after
  | cons payload first ih =>
    obtain ⟨res, _, handled, before⟩ := Exec.bind_ok before
    obtain ⟨rest, _, others, made⟩ := Exec.bind_ok before
    obtain ⟨same, rfl⟩ := Prod.mk.inj made
    obtain rfl := Except.ok.inj same
    exact (Exec.bind_of_ok handled).trans (Exec.bind_of_ok (ih others))

theorem answerAll_length {requests replies : List ByteString} {app app' : σ}
    (answered : answerAll handle requests app = (.ok replies, app')) : replies.length = requests.length := by
  induction requests generalizing app replies with
  | nil =>
    obtain rfl := Except.ok.inj (Prod.mk.inj answered).1
    rfl
  | cons payload requests ih =>
    obtain ⟨res, _, _, answered⟩ := Exec.bind_ok answered
    obtain ⟨rest, _, others, made⟩ := Exec.bind_ok answered
    obtain ⟨same, rfl⟩ := Prod.mk.inj made
    obtain rfl := Except.ok.inj same
    rw [List.length_cons, List.length_cons, ih others]

/-- Requests are all answered, or one of them is the first that is not. -/
theorem answered_or_stopped (handle : ByteString → Exec Stop σ ByteString) (items : List ByteString) (app : σ) :
    (∃ replies app', answerAll handle items app = (.ok replies, app')) ∨
      ∃ done r left replies app', items = done ++ r :: left ∧ answerAll handle done app = (.ok replies, app') ∧
        ∃ e, (handle r app').1 = .error e := by
  induction items generalizing app with
  | nil => exact Or.inl ⟨[], app, rfl⟩
  | cons r items ih =>
    rcases handled : handle r app with ⟨e | res, mid⟩
    · exact Or.inr ⟨[], r, items, [], app, rfl, rfl, e, by rw [handled]⟩
    rcases ih mid with ⟨replies, app', answered⟩ | ⟨done, r', left, replies, app', rfl, answered, stopped⟩
    · exact Or.inl ⟨res :: replies, app', (Exec.bind_of_ok handled).trans (Exec.bind_of_ok answered)⟩
    · exact Or.inr ⟨r :: done, r', left, res :: replies, app', rfl, (Exec.bind_of_ok handled).trans (Exec.bind_of_ok answered), stopped⟩

/-- What cannot be taken off ends the loop at once, or is answered again and again. -/
theorem drain_overrun {buf : ByteString} (overrun : TmApp.Overrun buf) (fuel : Nat) (app : σ) (out : ByteString) :
    ∃ e, (Session.drain handle fuel { app, readBuffer := buf, writeBuffer := out }).1 = .error e := by
  induction fuel generalizing app out with
  | zero => exact ⟨.crash, rfl⟩
  | succ fuel ih =>
    unfold TmApp.Overrun at overrun
    rcases taken : takeRequest buf with ⟨e | _ | payload, rest⟩ <;> rw [taken] at overrun
    · refine ⟨e, congrArg Prod.fst (Exec.bind_of_error (t := { app, readBuffer := rest, writeBuffer := out }) ?_)⟩
      unfold Session.process
      simp only [taken]
    · exact overrun.elim
    · obtain rfl : rest = buf := overrun
      rcases handled : handle payload app with ⟨e | res, app'⟩
      · refine ⟨e, congrArg Prod.fst (Exec.bind_of_error (t := { app := app', readBuffer := rest, writeBuffer := out }) ?_)⟩
        unfold Session.process
        simp only [taken, handled]
      · have again : Session.process handle { app, readBuffer := rest, writeBuffer := out } =
            (.ok true, { app := app', readBuffer := rest, writeBuffer := out ++ TmApp.frame res }) := by
          unfold Session.process
          simp only [taken, handled]
        obtain ⟨e, failed⟩ := ih app' (out ++ TmApp.frame res)
        exact ⟨e, (congrArg Prod.fst (Exec.bind_of_ok again)).trans failed⟩

/-- The loop ends at a request that is not answered, and at what cannot be taken off. -/
theorem drain_stops {fuel : Nat} {app app' : σ} {buf tail out : ByteString} {done left replies : List ByteString}
    (drains : Drains nextRequest buf (done ++ left) tail) (answered : answerAll handle done app = (.ok replies, app'))
    (ends : Ends handle app' tail left) :
    ∃ e, (Session.drain handle fuel { app, readBuffer := buf, writeBuffer := out }).1 = .error e := by
  induction done generalizing app buf out fuel replies with
  | nil =>
    obtain ⟨_, rfl⟩ := Prod.mk.inj answered
    cases left with
    | nil =>
      obtain ⟨-, rfl⟩ := drains.unique (.done (by cases drains; assumption))
      exact drain_overrun ends fuel app out
    | cons r left =>
      cases fuel with
      | zero => exact ⟨.crash, rfl⟩
      | succ fuel =>
        obtain ⟨e, failed⟩ := ends
        rcases handled : handle r app with ⟨e' | _, app'⟩ <;> rw [handled] at failed
        · cases drains with
          | @more _ _ mid _ _ taken _ =>
            refine ⟨e', congrArg Prod.fst (Exec.bind_of_error (t := { app := app', readBuffer := mid, writeBuffer := out }) ?_)⟩
            unfold Session.process
            simp only [(nextRequest_eq_some.mp taken).1, handled]
        · cases failed
  | cons x done ih =>
    cases fuel with
    | zero => exact ⟨.crash, rfl⟩
    | succ fuel =>
      obtain ⟨res, app₁, handled, answered⟩ := Exec.bind_ok answered
      obtain ⟨_, _, others, made⟩ := Exec.bind_ok answered
      obtain ⟨same, rfl⟩ := Prod.mk.inj made
      cases drains with
      | more taken rest =>
        obtain ⟨e, later⟩ := ih rest others
        exact ⟨e, (congrArg Prod.fst (Exec.bind_of_ok (Session.process_of taken handled))).trans later⟩

end

theorem forConnection_append (i : Nat) (log new : List Handled) :
    forConnection i (log ++ new) = forConnection i log ++ forConnection i new := List.filter_append ..

/-- What is handled for one connection alone. -/
def handledOn (i : Nat) (requests replies : List ByteString) : List Handled :=
  (requests.zip replies).map fun pair => { connection := i, request := pair.1, reply := pair.2 }

section

variable {i : Nat} {requests replies : List ByteString}

theorem handledOn_requests (same : replies.length = requests.length) :
    (handledOn i requests replies).map (fun h => h.request) = requests := by
  rw [handledOn, List.map_map]
  exact List.map_fst_zip (Nat.le_of_eq same.symm)

theorem handledOn_replies (same : replies.length = requests.length) :
    (handledOn i requests replies).map (fun h => h.reply) = replies := by
  rw [handledOn, List.map_map]
  exact List.map_snd_zip (Nat.le_of_eq same)

theorem handledOn_connection {h : Handled} (mem : h ∈ handledOn i requests replies) : h.connection = i := by
  obtain ⟨_, _, rfl⟩ := List.mem_map.mp mem
  rfl

theorem forConnection_handledOn : forConnection i (handledOn i requests replies) = handledOn i requests replies :=
  List.filter_eq_self.mpr fun _ mem => decide_eq_true (handledOn_connection mem)

theorem forConnection_other {j : Nat} (other : i ≠ j) : forConnection i (handledOn j requests replies) = [] :=
  List.filter_eq_nil_iff.mpr fun _ mem same => other ((of_decide_eq_true same).symm.trans (handledOn_connection mem))

end

namespace Connection.Served

variable {c : Connection} {log : List Handled}

theorem fresh : ({} : Connection).Served [] where
  requests := .done rfl
  waits := rfl
  replies := rfl
  reads _ := rfl

theorem written (h : c.Served log) : (Server.processWrite c).Served log where
  requests := h.requests
  waits := h.waits
  replies := (List.append_nil _).trans h.replies
  reads _ := rfl

theorem closed (h : c.Served log) : ({ c with waiting := .closed } : Connection).Served log where
  requests := h.requests
  waits := h.waits
  replies := h.replies
  reads wrong := by cases wrong

end Connection.Served

namespace Server

variable {σ : Type} {handle : ByteString → Exec Stop σ ByteString} {start : σ} {s : Server σ} {log : List Handled}

/-- What arrives is handled after the log, or it has something that stops the process. -/
theorem processRead_cases {i : Nat} {c : Connection} (handles : s.Handles handle start log) (held : s.connections[i]? = some c)
    (chunk : ByteString) :
    (∃ requests replies c' app, processRead handle chunk c s.app = (.ok (), c', app) ∧ replies.length = requests.length ∧
      answerAll handle requests s.app = (.ok replies, app) ∧ c'.Served (forConnection i log ++ handledOn i requests replies)) ∨
    ∃ e requests replies app left tail, (processRead handle chunk c s.app).1 = .error e ∧ replies.length = requests.length ∧
      answerAll handle requests s.app = (.ok replies, app) ∧
      Drains nextRequest (c.received ++ chunk) (((forConnection i log).map fun h => h.request) ++ (requests ++ left)) tail ∧
      Ends handle app tail left := by
  obtain ⟨drains, _, replied, _⟩ := handles.served i c held
  obtain ⟨new, tail, arrived⟩ := TmApp.stable_nextRequest.drains (c.readBuffer ++ chunk)
  have whole := drains.append TmApp.stable_nextRequest arrived
  have stops {requests left replies : List ByteString} {app : σ} (parts : new = requests ++ left)
      (answered : answerAll handle requests s.app = (.ok replies, app)) (ends : Ends handle app tail left) :
      ∃ e, (processRead handle chunk c s.app).1 = .error e := by
    subst parts
    have failed : ∃ e, (Session.drain handle ((c.readBuffer ++ chunk).length + 1) ⟨s.app, c.readBuffer ++ chunk, c.writeBuffer⟩).1 =
        .error e := drain_stops arrived answered ends
    exact failed
  rcases answered_or_stopped handle new s.app with ⟨replies, app, answered⟩ | ⟨done, r, left, replies, app, rfl, answered, stopped⟩
  · have count := answerAll_length answered
    rcases TmApp.waits_or_overrun arrived.stuck with waits | overrun
    · left
      have drained : Session.drain handle ((c.readBuffer ++ chunk).length + 1) ⟨s.app, c.readBuffer ++ chunk, c.writeBuffer⟩ = _ :=
        Session.drain_runs arrived waits (Nat.lt_succ_self _) answered
      refine ⟨new, replies,
        asyncWrite { c with readBuffer := tail, writeBuffer := c.writeBuffer ++ stream replies, received := c.received ++ chunk },
        app, ?_, count, answered, ?_⟩
      · rw [processRead, drained]
      · refine ⟨?_, waits, ?_, ?_⟩
        · rwa [List.map_append, handledOn_requests count]
        · rw [List.map_append, handledOn_replies count, Session.stream_append, ← replied]
          exact (List.append_assoc ..).symm
        · intro waits
          simp only [asyncWrite] at waits ⊢
          split at waits
          · rename_i empty
            exact List.isEmpty_iff.mp empty
          · cases waits
    · right
      obtain ⟨e, failed⟩ := stops (List.append_nil _).symm answered overrun
      exact ⟨e, new, replies, app, [], tail, failed, count, answered, by rwa [List.append_nil], overrun⟩
  · right
    obtain ⟨e, failed⟩ := stops rfl answered stopped
    exact ⟨e, done, replies, app, r :: left, tail, failed, answerAll_length answered, answered, whole, stopped⟩

/-- The connections after what arrived on one of them. -/
theorem Handles.handled {i : Nat} {c c' : Connection} {requests replies : List ByteString} {app : σ}
    (handles : s.Handles handle start log) (held : s.connections[i]? = some c) (same : replies.length = requests.length)
    (answered : answerAll handle requests s.app = (.ok replies, app))
    (served : c'.Served (forConnection i log ++ handledOn i requests replies)) :
    ({ app, connections := s.connections.set i c' } : Server σ).Handles handle start (log ++ handledOn i requests replies) where
  answered := by
    rw [List.map_append, List.map_append, handledOn_requests same, handledOn_replies same]
    exact answerAll_of_append handles.answered answered
  served j d held' := by
    rw [forConnection_append]
    by_cases this : j = i
    · subst this
      rw [List.getElem?_set_self (List.getElem?_eq_some_iff.mp held).1] at held'
      obtain rfl := Option.some.inj held'
      rwa [forConnection_handledOn]
    · rw [List.getElem?_set_ne (Ne.symm this)] at held'
      rw [forConnection_other this, List.append_nil]
      exact handles.served j d held'
  known h mem := by
    rw [List.length_set]
    rcases List.mem_append.mp mem with old | new
    · exact handles.known h old
    · rw [handledOn_connection new]
      exact (List.getElem?_eq_some_iff.mp held).1

/-- Nothing is handled where one connection changes and was served as before. -/
theorem Handles.changed {i : Nat} {c c' : Connection} (handles : s.Handles handle start log) (held : s.connections[i]? = some c)
    (served : c'.Served (forConnection i log)) :
    ({ s with connections := s.connections.set i c' } : Server σ).Handles handle start log := by
  have nothing : handledOn i [] [] = [] := rfl
  have after := handles.handled held rfl rfl (by rwa [nothing, List.append_nil])
  rw [nothing, List.append_nil] at after
  exact ⟨after.answered, after.served, after.known⟩

theorem Handles.accepted (handles : s.Handles handle start log) :
    ({ s with connections := s.connections ++ [{}] } : Server σ).Handles handle start log where
  answered := handles.answered
  served i c held := by
    rcases Nat.lt_or_ge i s.connections.length with old | new
    · rw [List.getElem?_append_left old] at held
      exact handles.served i c held
    · rw [List.getElem?_append_right new] at held
      obtain rfl := List.mem_singleton.mp (List.mem_of_getElem? held)
      have nothing : forConnection i log = [] := List.filter_eq_nil_iff.mpr fun h mem same =>
        absurd (handles.known h mem) (by rw [of_decide_eq_true same]; exact Nat.not_lt.mpr new)
      rw [nothing]
      exact .fresh
  known h mem := by
    rw [List.length_append]
    exact Nat.lt_add_right _ (handles.known h mem)

/-- The process goes on with more requests handled, or it ends. -/
inductive Next (handle : ByteString → Exec Stop σ ByteString) (start : σ) (log : List Handled) (events : List NetEvent) (t : Server σ) :
    Prop where
  | on {new} (up : t.down = false) (handles : t.Handles handle start (log ++ new))
  | unaccepted (down : t.down = true) (refused : .acceptFailed ∈ events)
  | stopped {new} (down : t.down = true) (stopped : t.Stopped handle start (log ++ new))

theorem Next.same {t : Server σ} {events : List NetEvent} (up : t.down = false) (handles : t.Handles handle start log) :
    Next handle start log events t :=
  .on up (by rwa [List.append_nil] : t.Handles handle start (log ++ []))

theorem Handles.next (handles : s.Handles handle start log) (up : s.down = false) (event : NetEvent) :
    Next handle start log [event] (s.step handle event) := by
  have live : ¬ s.down = true := by rw [up]; decide
  unfold Server.step
  rw [if_neg live]
  cases event with
  | accepted => exact .same up handles.accepted
  | acceptFailed => exact .unaccepted rfl List.mem_cons_self
  | read i chunk =>
    dsimp only
    split
    · rename_i c held
      split
      · rcases processRead_cases handles held chunk with ⟨requests, replies, c', app, ran, same, answered, served⟩ |
          ⟨e, requests, replies, app, left, tail, failed, same, answered, drains, ends⟩
        · rw [ran]
          exact .on rfl (handles.handled held same answered served)
        · rcases ran : processRead handle chunk c s.app with ⟨result, c', app'⟩
          rw [ran] at failed
          obtain rfl : result = .error e := failed
          have received : c'.received = c.received ++ chunk := (congrArg (fun r => r.2.1.received) ran).symm
          have ended {t : Server σ} (down : t.down = true) (stopped : t.Stopped handle start (log ++ handledOn i requests replies)) :
            Next handle start log [.read i chunk] t := .stopped down stopped
          refine ended rfl ⟨app, i, c', left, tail, ?_, ?_, ?_, ends⟩
          · exact List.getElem?_set_self (List.getElem?_eq_some_iff.mp held).1
          · rwa [received, forConnection_append, forConnection_handledOn, List.map_append, handledOn_requests same, List.append_assoc]
          · rw [List.map_append, List.map_append, handledOn_requests same, handledOn_replies same]
            exact answerAll_of_append handles.answered answered
      · exact .same up handles
    · exact .same up handles
  | wrote i =>
    dsimp only
    split
    · rename_i c held
      split
      · exact .same up (handles.changed held (handles.served i c held).written)
      · exact .same up handles
    · exact .same up handles
  | failed i =>
    dsimp only
    split
    · rename_i c held
      exact .same up (handles.changed held (handles.served i c held).closed)
    · exact .same up handles

theorem run_down (down : s.down = true) (events : List NetEvent) : s.run handle events = s := by
  induction events with
  | nil => rfl
  | cons event events ih =>
    have stays : s.step handle event = s := if_pos down
    rw [Server.run, List.foldl_cons, stays]
    exact ih

theorem Handles.run (handles : s.Handles handle start log) (up : s.down = false) (events : List NetEvent) :
    Next handle start log events (s.run handle events) := by
  induction events generalizing s log with
  | nil => exact .same up handles
  | cons event events ih =>
    change Next handle start log (event :: events) ((s.step handle event).run handle events)
    cases handles.next up event with
    | on up' handles' =>
      cases ih handles' up' with
      | on up'' handles'' => exact .on up'' (by rwa [List.append_assoc] at handles'')
      | unaccepted down refused => exact .unaccepted down (List.mem_cons_of_mem _ refused)
      | stopped down stopped => exact .stopped down (by rwa [List.append_assoc] at stopped)
    | unaccepted down refused =>
      rw [run_down down]
      exact .unaccepted down (List.mem_cons.mpr (Or.inl (List.mem_singleton.mp refused)))
    | stopped down stopped =>
      rw [run_down down]
      exact .stopped down stopped

theorem run_append (s : Server σ) (before after : List NetEvent) :
    s.run handle (before ++ after) = (s.run handle before).run handle after := List.foldl_append ..

theorem handles_start (app : σ) : ({ app } : Server σ).Handles handle app [] where
  answered := rfl
  served _ _ held := by cases held
  known _ mem := by cases mem

end Server

/-- In every order of arrivals, writes and lost clients on any number of connections, the application is handed the requests one
after the other, each exactly once, and what was handled earlier stays handled first; each client is sent the answers to its own
requests in the order it made them; and the process ends only where a connection cannot be accepted, or at a request that is not
answered or cannot be taken off what arrived. -/
theorem connections_served {σ : Type} (handle : ByteString → Exec Stop σ ByteString) (app : σ) (before after : List NetEvent) :
    ((({ app } : Server σ).run handle (before ++ after)).down = false → ∃ log new,
      (({ app } : Server σ).run handle before).Handles handle app log ∧
        (({ app } : Server σ).run handle (before ++ after)).Handles handle app (log ++ new)) ∧
    ((({ app } : Server σ).run handle (before ++ after)).down = true → .acceptFailed ∈ before ++ after ∨
      ∃ log, (({ app } : Server σ).run handle (before ++ after)).Stopped handle app log) := by
  constructor
  · intro up
    have start : ({ app } : Server σ).Handles handle app [] := Server.handles_start app
    have first := start.run rfl before
    rw [Server.run_append] at up ⊢
    cases first with
    | @on log alive handles =>
      cases handles.run alive after with
      | on _ handles' => exact ⟨_, _, handles, handles'⟩
      | unaccepted down _ | stopped down _ => cases up.symm.trans down
    | unaccepted down _ | stopped down _ =>
      rw [Server.run_down down] at up
      cases up.symm.trans down
  · intro down
    have start : ({ app } : Server σ).Handles handle app [] := Server.handles_start app
    cases start.run rfl (before ++ after) with
    | on up _ => cases up.symm.trans down
    | unaccepted _ refused => exact Or.inl refused
    | stopped _ stopped => exact Or.inr ⟨_, stopped⟩

end BandChain
