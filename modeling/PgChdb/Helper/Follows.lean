import PgChdb.Helper.ExitStatus
import PgChdb.Helper.System

namespace PgChdb.Program

open CText Machine
open Process (Errno chdbHelperLostBackend)

/-!
# The helper's program goes the way of the system's helper

`HelperStep` of `Helper/System.lean` takes a system call of the helper together with everything
the helper does until its next, with libchdb's answers left free.  Every run of the program,
call by call, is such a way through the helper's states.  A step is due when the system call
is made and what follows it is only known later; so where a function is about to ask libchdb,
the calls so far lead to the state after any answer, and the answer then picks one.

* `Local`, `Move`, `Path` — the helper's states, what each call does to them, and a sequence
  of calls; `Follows` — the calls of a process from its start;
* `Opening`, `Fetching`, `Finishing` — the calls lead to whatever comes next; `Ending` — the
  process is to exit;
* `say_follows`, `writeAll_follows`, `selectTurn_follows` and so on — the functions;
* `calls_follow` — every run follows a path.
-/

/-! ### Paths -/

/-- The helper, with the bytes of the payload it has read. -/
structure Local where
  h : HelperState
  setup : Bytes

/-- After the fork. -/
def Local.start : Local where
  h := { pc := .setup, saying := [], fetched := [], appended := [], streamDone := false }
  setup := []

/-- The helper goes on as one with the command of the payload does. -/
structure StartsAs (setup : Bytes) (h h' : HelperState) : Prop where
  alive : h'.alive = true
  starts : ∀ cmd : ChdbCmdType,
    (∀ x rest, parseSetup setup = some (x, rest) → x.cmdType = cmd.toByte) → Starts cmd h h'

/-- A call that has nothing to do with a descriptor, other than `chdb_stream_done`. -/
def Call.quiet : Call → Bool
  | .read _ _ | .write _ _ _ | .done _ _ | .exit _ => false
  | _ => true

/-- What a call does to the helper's state. -/
inductive Move (l : Local) : Call → Local → Prop
  | setupRead {got : Bytes} (hat : l.h.At .setup) (hgot : got ≠ []) :
      Move l (.read .setup (.ok got)) { l with setup := l.setup ++ got }
  | setupError (errno : Errno) (hat : l.h.At .setup) : Move l (.read .setup (.error errno)) l
  | setupEnd {h : HelperState} (hat : l.h.At .setup) (hs : StartsAs l.setup l.h h) :
      Move l (.read .setup (.ok [])) { l with h := h }
  | wrote {owner : Option ℕ} {put rest : Bytes} {h : HelperState}
      (hat : l.h.At (.writing (put ++ rest))) (hput : put ≠ []) (hw : WritesOn l.h rest h) :
      Move l (.write .stdout owner (.ok put)) { l with h := h }
  | writeAgain (owner : Option ℕ) : Move l (.write .stdout owner (.error .eintr)) l
  | writePipe {rest : Bytes} (owner : Option ℕ) (hat : l.h.At (.writing rest)) :
      Move l (.write .stdout owner (.error .epipe))
        { l with h := { l.h with pc := .ended (.signaled sigpipe) } }
  | writeFails {rest : Bytes} (owner : Option ℕ) {errno : Errno} (hne : errno ≠ .epipe)
      (hat : l.h.At (.writing rest)) :
      Move l (.write .stdout owner (.error errno)) { l with h := l.h.fails [] 2 }
  | read {got : Bytes} {h : HelperState} (hat : l.h.At .reading) (hgot : got ≠ [])
      (ha : Appends l.h got h) : Move l (.read .stdin (.ok got)) { l with h := h }
  | readAgain : Move l (.read .stdin (.error .eintr)) l
  | readEnd {h : HelperState} (hat : l.h.At .reading) (hd : Done l.h h) :
      Move l (.read .stdin (.ok [])) { l with h := h }
  | readFails (errno : Errno) (hat : l.h.At .reading) :
      Move l (.read .stdin (.error errno)) { l with h := l.h.fails [] 2 }
  | say {owner : Option ℕ} {put rest : Bytes} (halive : l.h.alive = true)
      (hsay : l.h.saying = put ++ rest) (hput : put ≠ []) :
      Move l (.write .stderr owner (.ok put)) { l with h := { l.h with saying := rest } }
  | sayPipe (owner : Option ℕ) (halive : l.h.alive = true) (hsay : l.h.saying ≠ []) :
      Move l (.write .stderr owner (.error .epipe))
        { l with h := { l.h with pc := .ended (.signaled sigpipe) } }
  | sayFails (owner : Option ℕ) {errno : Errno} (hne : errno ≠ .epipe) :
      Move l (.write .stderr owner (.error errno)) { l with h := { l.h with saying := [] } }
  | done (stream : ℕ) (reply : Reply) (hdone : l.h.streamDone = true) :
      Move l (.done stream reply) l
  | exit {code : ℕ} (hat : l.h.At (.exits code)) :
      Move l (.exit code) { l with h := { l.h with pc := .ended (.exited code) } }
  | quiet {c : Call} (hc : c.quiet = true) : Move l c l

/-- The calls of a living process lead from one state to another.  Reading the payload can fail
    between two of them. -/
inductive Path : Local → List Call → Local → Prop
  | nil (l : Local) : Path l [] l
  | call {l l' l'' : Local} {c : Call} {cs : List Call} (halive : l.h.alive = true)
      (hc : Move l c l') (hcs : Path l' cs l'') : Path l (c :: cs) l''
  | setupFails {l l' : Local} {cs : List Call} (text : Bytes) (hat : l.h.At .setup)
      (hcs : Path { l with h := l.h.fails text 1 } cs l') : Path l cs l'

def Follows (log : List Call) (l : Local) : Prop := Path .start log l

section
variable {l l' l'' : Local} {c : Call} {cs ds log : List Call}

theorem Path.trans (h : Path l cs l') (h' : Path l' ds l'') : Path l (cs ++ ds) l'' := by
  induction h with
  | nil => exact h'
  | call halive hc _ ih => exact .call halive hc (ih h')
  | setupFails text hat _ ih => exact .setupFails text hat (ih h')

/-- A path through all of the calls passes some state after the first of them. -/
theorem Path.split (h : Path l (cs ++ ds) l'') : ∃ l', Path l cs l' ∧ Path l' ds l'' := by
  generalize hlog : cs ++ ds = log at h
  induction h generalizing cs with
  | nil l =>
    obtain ⟨rfl, rfl⟩ := List.append_eq_nil_iff.mp hlog
    exact ⟨l, .nil l, .nil l⟩
  | @call l _ _ c cs' halive hc hcs ih =>
    cases cs with
    | nil =>
      rw [List.nil_append] at hlog
      subst hlog
      exact ⟨l, .nil l, .call halive hc hcs⟩
    | cons d cs =>
      obtain ⟨rfl, hrest⟩ := List.cons.inj hlog
      obtain ⟨m, hm, hm'⟩ := ih hrest
      exact ⟨m, .call halive hc hm, hm'⟩
  | @setupFails l _ cs' text hat hcs ih =>
    obtain ⟨m, hm, hm'⟩ := ih hlog
    exact ⟨m, .setupFails text hat hm, hm'⟩

theorem Follows.move (h : Follows log l) (halive : l.h.alive = true) (hc : Move l c l') :
    Follows (log ++ [c]) l' := Path.trans h (.call halive hc (.nil l'))

theorem Follows.quiet (h : Follows log l) (halive : l.h.alive = true) (hc : c.quiet = true) :
    Follows (log ++ [c]) l := h.move halive (.quiet hc)

theorem Follows.setupFails (h : Follows log l) (hat : l.h.At .setup) (text : Bytes) :
    Follows log { l with h := l.h.fails text 1 } := by
  have hpath := Path.trans h (.setupFails text hat (.nil _))
  rwa [List.append_nil] at hpath

end

/-! ### What the calls lead to -/

/-- The payload has been read; the calls lead to wherever that may take the helper. -/
def Opening (setup : Bytes) (log : List Call) : Prop :=
  ∀ h, StartsAs setup Local.start.h h → Follows log ⟨h, setup⟩

/-- The next chunk is to be fetched. -/
def Fetching (setup : Bytes) (h : HelperState) (log : List Call) : Prop :=
  ∀ h', Fetches h h' → Follows log ⟨h', setup⟩

/-- The blocks have come to their end. -/
def Finishing (setup : Bytes) (h : HelperState) (log : List Call) : Prop :=
  ∀ h', Done h h' → Follows log ⟨h', setup⟩

/-- The process is to exit with that status. -/
def Ending (setup : Bytes) (status : ℕ) (log : List Call) : Prop :=
  ∃ h, h.At (.exits status) ∧ Follows log ⟨h, setup⟩

/-- How the process is left, by the way it stops. -/
def Stop.Leaves (stop : Stop) (h : HelperState) : Prop :=
  match stop with
  | .exits code => h.pc = .ended (.exited code)
  | .signaled sig => h.pc = .ended (.signaled sig)
  | .cut => h.alive = true

/-- The calls lead to a process left so. -/
def Followed (stop : Stop) (log : List Call) : Prop := ∃ l, Follows log l ∧ stop.Leaves l.h

section
variable {setup : Bytes} {h : HelperState} {log : List Call} {c : Call} {status : ℕ}

theorem Opening.quiet (ho : Opening setup log) (hc : c.quiet = true) :
    Opening setup (log ++ [c]) := fun h hs => (ho h hs).quiet hs.alive hc

theorem Opening.fails (ho : Opening setup log) (text : Bytes) :
    Follows log ⟨Local.start.h.fails text 1, setup⟩ := ho _ ⟨rfl, fun _ _ => .fails text⟩

theorem Fetching.quiet (hf : Fetching setup h log) (hc : c.quiet = true) :
    Fetching setup h (log ++ [c]) := fun h' hs => (hf h' hs).quiet hs.alive hc

theorem Finishing.quiet (hf : Finishing setup h log) (hc : c.quiet = true) :
    Finishing setup h (log ++ [c]) := fun h' hs => (hf h' hs).quiet hs.alive hc

theorem Ending.quiet (he : Ending setup status log) (hc : c.quiet = true) :
    Ending setup status (log ++ [c]) := by
  obtain ⟨h, hat, hfollows⟩ := he
  exact ⟨h, hat, hfollows.quiet (hat.alive nofun) hc⟩

/-- Where the helper was when it fetched does not matter. -/
theorem fetches_of_pc {h' : HelperState} (pc : HelperPc) (hf : Fetches h h') :
    Fetches { h with pc := pc } h' := by
  cases hf with
  | chunk hc => exact .chunk hc
  | last => exact .last
  | error text => exact .error text

end

/-! ### The functions -/

section
variable {env : Env} {α : Type} {setup : Bytes} {h : HelperState} {log : List Call} {l : Local}

/-- What is to be said is said, unless the process dies of it. -/
theorem say_follows {t : Text} (hf : Follows log l) (halive : l.h.alive = true)
    (hsay : l.h.saying = t.bytes ++ lit "\n") :
    Machine.Ends (say env t) log (fun _ u => Follows u { l with h := { l.h with saying := [] } })
      Followed := by
  have hstart : Follows log { l with h := { l.h with saying := t.bytes ++ lit "\n" } } := by
    rw [← hsay]
    exact hf
  refine ends_forever
    (fun t u => Follows u { l with h := { l.h with saying := t.bytes } }) ?_ ?_ hstart
  · intro t u hu
    refine ends_ite (fun hnil => ?_) (fun hnil => ?_)
    · rw [hnil] at hu
      exact hu
    · rw [ends_bind]
      refine ends_sysWrite (fun n => ?_) (fun errno hpeer => ?_) ?_
      · refine hu.move halive (.say halive (t.take_after (n + 1)).symm ?_)
        simpa using hnil
      · exact hu.move halive (.sayFails t.owner hpeer)
      · exact ⟨_, hu.move halive (.sayPipe t.owner halive hnil), rfl⟩
  · intro t u hu
    exact ⟨_, hu, halive⟩

/-- The helper prints a text and is then to exit. -/
theorem say_ending {t : Text} (hf : Follows log ⟨h.fails (t.bytes ++ lit "\n") 1, setup⟩) :
    Machine.Ends (say env t) log (fun _ => Ending setup 1) Followed :=
  (say_follows hf rfl rfl).imp fun _ _ hu => ⟨_, ⟨rfl, rfl⟩, hu⟩

theorem fail_follows {what : Bytes} {Q : α → List Call → Prop}
    (hf : Follows log ⟨h.fails (what ++ lit "\n") 1, setup⟩) :
    Machine.Ends (fail env what : Run α) log Q Followed := by
  refine (say_ending (t := ⟨none, what⟩) hf).seq fun _ u ⟨h', hat, hu⟩ => ?_
  exact ⟨_, hu.move (hat.alive nofun) (.exit hat), rfl⟩

/-- Reading the payload fails. -/
theorem fail_setup {what : Bytes} {Q : α → List Call → Prop} (hf : Follows log l)
    (hat : l.h.At .setup) : Machine.Ends (fail env what : Run α) log Q Followed :=
  fail_follows (hf.setupFails hat (what ++ lit "\n"))

/-- The helper fails between the payload and the command's first call. -/
theorem fail_opening {what : Bytes} {Q : α → List Call → Prop} (ho : Opening setup log) :
    Machine.Ends (fail env what : Run α) log Q Followed :=
  fail_follows (ho.fails (what ++ lit "\n"))

theorem notNull_setup (hf : Follows log l) (hat : l.h.At .setup) :
    Machine.Ends (notNull env) log (fun _ u => Follows u l) Followed := by
  unfold notNull
  rw [ends_bind, ends_get, ends_bind, ends_record]
  have hasked := hf.quiet (hat.alive nofun) (c := .alloc (env.alloc log)) rfl
  exact ends_ite (fun _ => hasked) fun _ => fail_setup hasked hat

theorem notNull_opening (ho : Opening setup log) :
    Machine.Ends (notNull env) log (fun _ => Opening setup) Followed := by
  unfold notNull
  rw [ends_bind, ends_get, ends_bind, ends_record]
  exact ends_ite (fun _ => ho.quiet rfl) fun _ => fail_opening (ho.quiet rfl)

theorem toByte_injective {a b : ChdbCmdType} (hab : a.toByte = b.toByte) : a = b := by
  cases a <;> cases b <;> first | rfl | exact absurd hab (by decide)

/-- The helper as it reads the payload. -/
def Local.reading (setup : Bytes) : Local := { Local.start with setup := setup }

theorem readSetup_follows :
    Machine.Ends (readSetup env) [] (fun p u => Opening p u) Followed := by
  have hat : ∀ p, (Local.reading p).h.At .setup := fun _ => ⟨rfl, rfl⟩
  have hstart : Follows [] (Local.reading []) := .nil _
  refine (notNull_setup hstart (hat [])).seq fun _ t ht => ?_
  refine ends_forever (fun b t => Follows t (.reading b.buf)) (fun b t hb => ?_)
    (fun b t hb => ⟨_, hb, rfl⟩) ht
  unfold readSetupTurn
  cases hgrow : grow b with
  | error e => exact fail_setup hb (hat _)
  | ok b' =>
    rw [← grow_buf hgrow] at hb
    refine Machine.Ends.seq (P := fun _ u => Follows u (.reading b'.buf))
      (ends_onlyIf (fun _ => notNull_setup hb (hat _)) fun _ => hb) fun _ u hu => ?_
    rw [ends_bind]
    refine ends_sysRead (fun bytes => ?_) (fun errno => ?_)
    · refine ends_ite (fun hnil => ?_) (fun hnil => hu.move rfl (.setupRead (hat _) hnil))
      rw [hnil]
      exact fun h hs => hu.move rfl (.setupEnd (hat _) hs)
    · have hread := hu.move rfl (.setupError errno (hat _))
      exact ends_ite (fun _ => hread) fun _ => fail_setup hread (hat _)

/-- The request is what was read. -/
theorem readRequest_follows : Machine.Ends (readRequest env) [] (fun x u => ∃ setup rest,
    parseSetup setup = some (x, rest) ∧ Opening setup u) Followed := by
  refine readSetup_follows.seq fun p t₀ h₀ => ?_
  rw [ends_bind]
  refine ends_taking (fun r hhead => ?_) (fail_opening h₀)
  refine (notNull_opening h₀).seq fun _ t₁ h₁ => ?_
  refine (notNull_opening h₁).seq fun _ t₂ h₂ => ?_
  refine (notNull_opening h₂).seq fun _ t₃ h₃ => ?_
  refine (notNull_opening h₃).seq fun _ t₄ h₄ => ?_
  rw [ends_bind]
  refine ends_taking (fun r' hparams => ?_) (fail_opening h₄)
  exact ⟨p, r'.2, parseSetup_of_parts hhead hparams, h₄⟩

theorem connect_follows (ho : Opening setup log) :
    Machine.Ends (connect env) log (fun _ => Opening setup) Followed := by
  have henabled := ho.quiet (c := .setSignalHandlersEnabled false) rfl
  unfold connect
  rw [ends_bind, ends_record, ends_bind, ends_get, ends_bind, ends_record]
  exact ends_ite (fun _ => henabled.quiet rfl) fun _ => fail_opening (henabled.quiet rfl)

/-- The settings are taken, or the helper is to exit. -/
theorem openSession_follows (x : SetupRequest) (ho : Opening setup log) :
    Machine.Ends (openSession env x) log (fun status u =>
      (status = 0 ∧ Opening setup u) ∨ (status = 1 ∧ Ending setup 1 u)) Followed := by
  unfold openSession
  rw [ends_bind]
  refine ends_obtain fun reply => ?_
  have hsession := ho.quiet (c := .session (setupSession x.maxMem x.maxThreads x.maxParsers
    x.timezone) reply) rfl
  have hlook := hsession.quiet (c := .look log.length) rfl
  rw [ends_bind]
  refine ends_resultError (fun text _ => ?_) (fun bytes _ => Or.inl ⟨rfl, hlook.quiet rfl⟩)
  refine (say_ending (t := ⟨some log.length, text⟩) (hlook.fails _)).seq fun _ u hu => ?_
  exact Or.inr ⟨rfl, hu.quiet rfl⟩

/-- A chunk goes out, and the next is to be fetched; or the channel has broken. -/
theorem writeAll_follows {t : Text} (hf : Follows log ⟨{ h with pc := .writing t.bytes }, setup⟩)
    (hsay : h.saying = []) (hne : t.bytes ≠ []) :
    Machine.Ends (writeAll env t) log (fun written u => if written then Fetching setup h u
      else Ending setup chdbHelperLostBackend u) Followed := by
  refine ends_forever (fun t u => if t.bytes = [] then Fetching setup h u
    else Follows u ⟨{ h with pc := .writing t.bytes }, setup⟩) ?_ ?_ (by rwa [if_neg hne])
  · intro t u hu
    refine ends_ite (fun hnil => ?_) (fun hnil => ?_)
    · rw [if_pos hnil] at hu
      exact hu
    · rw [if_neg hnil] at hu
      rw [ends_bind]
      refine ends_sysWrite (fun n => ?_) (fun errno hpeer => ?_) ?_
      · have hput : t.bytes.take (n + 1) ≠ [] := by simpa using hnil
        have hat : (⟨{ h with pc := .writing t.bytes }, setup⟩ : Local).h.At
            (.writing (t.bytes.take (n + 1) ++ (t.after (t.bytes.take (n + 1))).bytes)) :=
          ⟨by rw [t.take_after], hsay⟩
        show (if (t.after _).bytes = [] then _ else _ : Prop)
        by_cases hrest : (t.after (t.bytes.take (n + 1))).bytes = []
        · rw [if_pos hrest]
          rw [hrest] at hat
          exact fun h' hfetch => hu.move rfl (.wrote hat hput (.next (fetches_of_pc _ hfetch)))
        · rw [if_neg hrest]
          exact hu.move rfl (.wrote hat hput (.more hrest))
      · refine ends_ite (fun hintr => ?_) (fun hintr => ?_)
        · show (if t.bytes = [] then _ else _ : Prop)
          rw [if_neg hnil, hintr]
          exact hu.move rfl (.writeAgain t.owner)
        · exact ⟨_, ⟨rfl, rfl⟩, hu.move rfl (.writeFails t.owner hpeer ⟨rfl, hsay⟩)⟩
      · exact ⟨_, hu.move rfl (.writePipe t.owner ⟨rfl, hsay⟩), rfl⟩
  · intro t u hu
    by_cases hnil : t.bytes = []
    · rw [if_pos hnil] at hu
      exact ⟨_, hu _ (.error []), rfl⟩
    · rw [if_neg hnil] at hu
      exact ⟨_, hu, rfl⟩

/-- The chunks of a stream, one after the other. -/
theorem selectTurn_follows {stream : ℕ} (hf : Fetching setup h log) (hsay : h.saying = []) :
    Machine.Ends (selectTurn env stream ()) log (Sum.elim
      (fun _ u => ∃ h', h'.saying = [] ∧ Fetching setup h' u)
      fun status => Ending setup status) Followed := by
  unfold selectTurn
  rw [ends_bind]
  refine ends_obtain fun reply => ?_
  have hlook := (hf.quiet (c := .fetchResult stream reply) rfl).quiet (c := .look log.length) rfl
  rw [ends_bind]
  refine ends_resultError (fun text _ => ?_) (fun bytes hok => ?_)
  · refine (say_ending (t := ⟨some log.length, text⟩) (hlook _ (.error _))).seq fun _ u hu => ?_
    exact hu.quiet rfl
  · have hlook' := hlook.quiet (c := .look log.length) rfl
    rw [ends_bind]
    refine ends_resultBuffer hok (fun _ => ?_) (fun hne => ?_)
    · refine ⟨_, ?_, (hlook' _ .last).quiet rfl rfl⟩
      exact ⟨rfl, hsay⟩
    · have hchunk := (hlook'.quiet (c := .look log.length) rfl) _ (.chunk hne)
      refine (writeAll_follows (t := ⟨some log.length, bytes⟩)
        (h := { h with fetched := h.fetched ++ [bytes] }) hchunk hsay hne).seq
          fun written u hu => ?_
      cases written with
      | true => exact ⟨{ h with fetched := h.fetched ++ [bytes] }, hsay, Fetching.quiet hu rfl⟩
      | false => exact Ending.quiet hu rfl

theorem runSelect_follows (text : Bytes) (params : List (Bytes × Bytes)) (ho : Opening setup log)
    (hselect : ∀ h, Fetches Local.start.h h → StartsAs setup Local.start.h h) :
    Machine.Ends (runSelect env text params) log (Ending setup) Followed := by
  unfold runSelect
  rw [ends_bind]
  refine ends_obtain fun reply => ?_
  have hlook := (ho.quiet (c := .streamQuery text params reply) rfl).quiet
    (c := .look log.length) rfl
  rw [ends_bind]
  refine ends_resultError (fun error _ => ?_) (fun bytes _ => ?_)
  · refine (say_ending (t := ⟨some log.length, error⟩) (hlook.fails _)).seq fun _ u hu => ?_
    exact hu.quiet rfl
  · have hfetching : Fetching setup Local.start.h
        (log ++ [.streamQuery text params reply] ++ [.look log.length]) :=
      fun h hfetch => hlook h (hselect h hfetch)
    refine Machine.Ends.seq (ends_forever (fun _ u => ∃ h, h.saying = [] ∧ Fetching setup h u) ?_ ?_
      ⟨_, rfl, hfetching⟩) (P := Ending setup) fun status u hu => ?_
    · rintro _ u ⟨h, hsay, hf⟩
      exact selectTurn_follows hf hsay
    · rintro _ u ⟨h, -, hf⟩
      exact ⟨_, hf _ .last, rfl⟩
    · rw [ends_bind]
      refine ends_onlyIf (fun _ => ?_) (fun _ => hu.quiet rfl)
      exact (hu.quiet rfl).quiet rfl

theorem runQuery_follows (text : Bytes) (params : List (Bytes × Bytes)) (ho : Opening setup log)
    (hselect : ∀ h, Fetches Local.start.h h → StartsAs setup Local.start.h h) :
    Machine.Ends (runQuery env text params) log (Ending setup) Followed := by
  unfold runQuery
  rw [ends_bind]
  refine ends_obtain fun reply => ?_
  have hlook := (ho.quiet (c := .query text params reply) rfl).quiet (c := .look log.length) rfl
  rw [ends_bind]
  refine ends_resultError (fun error _ => ?_) (fun bytes hok => ?_)
  · refine (say_ending (t := ⟨some log.length, error⟩) (hlook.fails _)).seq fun _ u hu => ?_
    exact hu.quiet rfl
  · have hlook' := hlook.quiet (c := .look log.length) rfl
    rw [ends_bind]
    refine ends_resultBuffer hok (fun _ => ?_) (fun hne => ?_)
    · exact ⟨_, ⟨rfl, rfl⟩, (hlook' _ (hselect _ .last)).quiet rfl rfl⟩
    · -- the whole result is one chunk, and nothing is to follow it
      have hchunk := (hlook'.quiet (c := .look log.length) rfl) _ (hselect _ (.chunk hne))
      refine (writeAll_follows (t := ⟨some log.length, bytes⟩)
        (h := { Local.start.h with fetched := [bytes] }) hchunk rfl hne).seq fun written u hu => ?_
      cases written with
      | true => exact ⟨_, ⟨rfl, rfl⟩, (hu _ .last).quiet rfl rfl⟩
      | false => exact Ending.quiet hu rfl

/-- The blocks of an insert, one read after the other. -/
theorem insertTurn_follows {stream : ℕ} (hf : Follows log ⟨h, setup⟩) (hat : h.At .reading) :
    Machine.Ends (insertTurn env stream ()) log (Sum.elim
      (fun _ u => ∃ h', h'.At .reading ∧ Follows u ⟨h', setup⟩)
      fun r u => match r with
        | none => ∃ h', h'.saying = [] ∧ Finishing setup h' u
        | some status => Ending setup status u) Followed := by
  unfold insertTurn
  rw [ends_bind]
  refine ends_sysRead (fun bytes => ?_) (fun errno => ?_)
  · refine ends_ite (fun hnil => ?_) (fun hnil => ?_)
    · rw [hnil]
      exact ⟨h, hat.2, fun h' hd => hf.move (hat.alive nofun) (.readEnd hat hd)⟩
    · rw [ends_bind, ends_get, ends_bind, ends_record]
      refine ends_ite (fun hok => ?_) (fun hfailed => ?_)
      · refine ⟨_, ?_, (hf.move (hat.alive nofun) (.read hat hnil .ok)).quiet (hat.alive nofun) rfl⟩
        exact hat
      · rw [ends_bind]
        refine ends_streamInsertError fun error => ?_
        have hsaid : ∀ t : Text, Machine.Ends (say env t)
            (log ++ [.read .stdin (.ok bytes)] ++
              [.append stream bytes (env.append (log ++ [.read .stdin (.ok bytes)]))] ++
                [.insertError stream error]) (fun _ => Ending setup 1) Followed :=
          fun t => say_ending
            (((hf.move (hat.alive nofun) (.read hat hnil (.error _))).quiet rfl rfl).quiet rfl rfl)
        cases error with
        | none => exact (hsaid _).seq fun _ u hu => (hu.quiet rfl).quiet rfl
        | some text => exact (hsaid _).seq fun _ u hu => (hu.quiet rfl).quiet rfl
  · refine ends_ite (fun hintr => ?_) (fun _ => ?_)
    · rw [hintr]
      exact ⟨h, hat, hf.move (hat.alive nofun) .readAgain⟩
    · have hfailed : Ending setup 2 (log ++ [.read .stdin (.error errno)]) :=
        ⟨_, ⟨rfl, rfl⟩, hf.move (hat.alive nofun) (.readFails errno hat)⟩
      exact (hfailed.quiet rfl).quiet rfl

theorem runInsert_follows (text : Bytes) (params : List (Bytes × Bytes)) (ho : Opening setup log)
    (hinsert : StartsAs setup Local.start.h { Local.start.h with pc := .reading }) :
    Machine.Ends (runInsert env text params) log (Ending setup) Followed := by
  unfold runInsert
  rw [ends_bind, ends_get, ends_bind, ends_record, ends_bind]
  refine ends_streamInsertError fun error => ?_
  have hasked := (ho.quiet (c := .streamInsert text params) rfl).quiet
    (c := .insertError log.length error) rfl
  cases error with
  | some error =>
    refine (say_ending (t := ⟨some log.length, error⟩) (hasked.fails _)).seq fun _ u hu => ?_
    exact hu.quiet rfl
  | none =>
    refine (notNull_opening hasked).seq fun _ u₁ h₁ => ?_
    refine Machine.Ends.seq
      (ends_forever (fun _ u => ∃ h, h.At .reading ∧ Follows u ⟨h, setup⟩) ?_ ?_
      ⟨_, ⟨rfl, rfl⟩, h₁ _ hinsert⟩) (P := fun r u => match r with
        | none => ∃ h', h'.saying = [] ∧ Finishing setup h' u
        | some status => Ending setup status u) fun r u₂ h₂ => ?_
    · rintro _ u ⟨h, hat, hf⟩
      exact insertTurn_follows hf hat
    · rintro _ u ⟨h, hat, hf⟩
      exact ⟨_, hf, hat.alive nofun⟩
    cases r with
    | some status => exact h₂
    | none =>
      obtain ⟨h, hsay, hfinishing⟩ := h₂
      rw [ends_bind]
      refine ends_obtain fun reply => ?_
      have hdone : ∀ h', Done h h' → h'.streamDone = true →
          Follows (u₂ ++ [.done log.length reply] ++ [.look u₂.length]) ⟨h', setup⟩ :=
        fun h' hd hstream =>
          ((hfinishing h' hd).move hd.alive (.done _ _ hstream)).quiet hd.alive rfl
      rw [ends_bind]
      refine ends_resultError (fun error _ => ?_) (fun bytes _ => ?_)
      · have hfailed := hdone _ (.error (error ++ lit "\n")) rfl
        refine (say_ending (t := ⟨some u₂.length, error⟩)
          (h := { h with streamDone := true }) hfailed).seq fun _ u hu => ?_
        exact (hu.quiet rfl).quiet rfl
      · refine ⟨_, ?_, ((hdone _ .ok rfl).quiet rfl rfl).quiet rfl rfl⟩
        exact ⟨rfl, hsay⟩

/-- The commands go the ways of the setup's end. -/
theorem runCommand_follows {x : SetupRequest} {rest : Bytes} (ho : Opening setup log)
    (hparse : parseSetup setup = some (x, rest)) :
    Machine.Ends (runCommand env x) log (Ending setup) Followed := by
  have hcmd : ∀ (c : ChdbCmdType) (h' : HelperState), x.cmdType = c.toByte →
      Starts c Local.start.h h' → StartsAs setup Local.start.h h' := by
    intro c h' hx hs
    refine ⟨hs.alive, fun cmd hall => ?_⟩
    rwa [toByte_injective ((hall x rest hparse).symm.trans hx)]
  refine ends_ite (fun hselect => ?_) fun _ => ends_ite (fun hinsert => ?_) fun _ =>
    ends_ite (fun hdescribe => ?_) fun _ => fail_opening ho
  · exact runSelect_follows _ _ ho fun h hf => hcmd .select h hselect (.select nofun hf)
  · exact runInsert_follows _ _ ho (hcmd .insert _ hinsert (.insert rfl))
  · exact runQuery_follows _ _ ho fun h hf => hcmd .describe h hdescribe (.select nofun hf)

theorem main_ends_follows :
    Machine.Ends (main env) []
      (fun status u => ∃ l, Follows u l ∧ l.h.pc = .ended (.exited status)) Followed := by
  refine readRequest_follows.seq fun x u₀ ⟨setup, rest, hparse, h₀⟩ => ?_
  refine (connect_follows h₀).seq fun _ u₁ h₁ => ?_
  have hsession : Machine.Ends (runSession env x) u₁ (Ending setup) Followed := by
    refine (openSession_follows x h₁).seq fun status u₂ h₂ => ?_
    refine ends_ite (fun hzero => ?_) (fun hne => ?_)
    · rcases h₂ with ⟨-, hopening⟩ | ⟨hone, -⟩
      · exact runCommand_follows hopening hparse
      · rw [hone] at hzero
        cases hzero
    · rcases h₂ with ⟨hzero, -⟩ | ⟨hone, hending⟩
      · exact absurd hzero hne
      · rw [hone]
        exact hending
  refine hsession.seq fun status u₃ h₃ => ?_
  obtain ⟨h, hat, hf⟩ := h₃.quiet (c := .closeConn) rfl
  exact ⟨_, hf.move (hat.alive nofun) (.exit hat), rfl⟩

end

/-- **Every run goes the way of the system's helper**, and the process exits in the program when
    it does on the way. -/
theorem calls_follow (env : Env) : ∃ l, Follows (calls env) l ∧
    ∀ code, l.h.pc = .ended (.exited code) ↔ exitStatus env = some code := by
  have hends : Machine.Ends (main env) [] _ Followed := main_ends_follows
  unfold calls exitStatus
  cases hrun : main env [] with
  | ok status log =>
    obtain ⟨l, hf, hpc⟩ := hends.ok hrun
    exact ⟨l, hf, fun code => by simp [hpc]⟩
  | error stop log =>
    obtain ⟨l, hf, hleaves⟩ := hends.error hrun
    refine ⟨l, hf, fun code => ?_⟩
    cases stop with
    | exits status => simp [show l.h.pc = _ from hleaves]
    | signaled sig => simp [show l.h.pc = _ from hleaves]
    | cut =>
      have halive : l.h.alive = true := hleaves
      have hpc : l.h.pc ≠ .ended (.exited code) := fun hpc => by
        simp [HelperState.alive, hpc] at halive
      simp [hpc]

end PgChdb.Program
