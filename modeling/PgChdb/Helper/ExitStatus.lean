import PgChdb.Helper.Program

namespace PgChdb.Program

open CText Machine
open Process (Errno chdbHelperLostBackend)

/-!
# What the helper's exit status says

`src/helper.h` promises: 0 on success, `CHDB_HELPER_LOST_BACKEND` when the channel broke and
there was nobody left to tell, else nonzero with descriptor 2 saying why.  The three are
exclusive, and success is success of everything: no call failed, the command that was asked
for ran to its end, and what went out or in is all there was.

* `put`, `took`, `produced`, `inserted` — the bytes that crossed, read off the calls;
* `Told`, `Lost`, `Succeeded` — what each status stands for;
* `Going`, `Spoke`, `Broke` — how a run stands before it ends with 0, 1 or 2;
* `say_ends`, `fail_ends`, `writeAll_ends`, `runSelect_ends` and so on — each function from one
  of these to another;
* `main_contract` — the status, from the calls.
-/

/-! ### Reading the calls -/

/-- The bytes the call put on a descriptor. -/
def Call.put (fd : Fd) : Call → Bytes
  | .write fd' _ (.ok bytes) => if fd' = fd then bytes else []
  | _ => []

/-- The bytes it took from one. -/
def Call.took (fd : Fd) : Call → Bytes
  | .read fd' (.ok bytes) => if fd' = fd then bytes else []
  | _ => []

/-- The bytes of the result it returned, if that was one of the command's. -/
def Call.produced : Call → Bytes
  | .fetchResult _ (.ok bytes) => bytes
  | .query _ _ (.ok bytes) => bytes
  | _ => []

/-- The bytes libchdb took for an insert. -/
def Call.inserted : Call → Bytes
  | .append _ bytes true => bytes
  | _ => []

/-- Something was to be said. -/
def Call.speaks : Call → Bool
  | .write .stderr _ _ => true
  | _ => false

/-- The data channel broke. -/
def Call.lost : Call → Bool
  | .write .stdout _ (.error errno) => errno ≠ .eintr
  | .read .stdin (.error errno) => errno ≠ .eintr
  | _ => false

/-- The call did not fail, unless it was interrupted. -/
def Call.fine : Call → Bool
  | .read _ (.error errno) => errno = .eintr
  | .write _ _ (.error errno) => errno = .eintr
  | .alloc success | .connect success | .append _ _ success => success
  | .session _ reply | .query _ _ reply | .streamQuery _ _ reply | .fetchResult _ reply
  | .done _ reply => reply.isOk
  | .insertError _ error => error.isNone
  | _ => true

def put (fd : Fd) (log : List Call) : Bytes := log.flatMap (Call.put fd)

def took (fd : Fd) (log : List Call) : Bytes := log.flatMap (Call.took fd)

def produced (log : List Call) : Bytes := log.flatMap Call.produced

def inserted (log : List Call) : Bytes := log.flatMap Call.inserted

def Told (log : List Call) : Prop := log.any Call.speaks = true

def Lost (log : List Call) : Prop := log.any Call.lost = true

section
variable {fd : Fd} {log : List Call} {c : Call}

variable {t : List Call}

@[simp] theorem put_append : put fd (log ++ t) = put fd log ++ put fd t := List.flatMap_append

@[simp] theorem put_cons : put fd (c :: t) = c.put fd ++ put fd t := rfl

@[simp] theorem put_nil : put fd [] = [] := rfl

@[simp] theorem took_append : took fd (log ++ t) = took fd log ++ took fd t :=
  List.flatMap_append

@[simp] theorem took_cons : took fd (c :: t) = c.took fd ++ took fd t := rfl

@[simp] theorem took_nil : took fd [] = [] := rfl

@[simp] theorem produced_append : produced (log ++ t) = produced log ++ produced t :=
  List.flatMap_append

@[simp] theorem produced_cons : produced (c :: t) = c.produced ++ produced t := rfl

@[simp] theorem produced_nil : produced [] = [] := rfl

@[simp] theorem inserted_append : inserted (log ++ t) = inserted log ++ inserted t :=
  List.flatMap_append

@[simp] theorem inserted_cons : inserted (c :: t) = c.inserted ++ inserted t := rfl

@[simp] theorem inserted_nil : inserted [] = [] := rfl

@[simp] theorem told_append : Told (log ++ t) ↔ Told log ∨ Told t := by
  simp [Told]

@[simp] theorem told_cons : Told (c :: t) ↔ c.speaks = true ∨ Told t := by
  simp [Told]

@[simp] theorem not_told_nil : ¬ Told [] := Bool.false_ne_true

@[simp] theorem lost_append : Lost (log ++ t) ↔ Lost log ∨ Lost t := by
  simp [Lost]

@[simp] theorem lost_cons : Lost (c :: t) ↔ c.lost = true ∨ Lost t := by
  simp [Lost]

@[simp] theorem not_lost_nil : ¬ Lost [] := Bool.false_ne_true

theorem Call.not_lost_of_fine (h : c.fine = true) : c.lost = false := by
  unfold Call.lost
  split
  · simpa [Call.fine] using h
  · simpa [Call.fine] using h
  · rfl

end

/-- The command ran to its end: the stream's, the blocks', or the query's. -/
def Ran (x : SetupRequest) (log : List Call) : Prop :=
  (x.cmdType = ChdbCmdType.toByte .select ∧ ∃ stream reply,
    Call.streamQuery x.query x.params reply ∈ log ∧ Call.fetchResult stream (.ok []) ∈ log) ∨
  (x.cmdType = ChdbCmdType.toByte .insert ∧ ∃ stream bytes,
    Call.streamInsert x.query x.params ∈ log ∧ Call.read .stdin (.ok []) ∈ log ∧
      Call.done stream (.ok bytes) ∈ log) ∨
  (x.cmdType = ChdbCmdType.toByte .describe ∧ ∃ bytes,
    Call.query x.query x.params (.ok bytes) ∈ log)

/-- No call failed, the request of the payload ran to its end, and the bytes of its result
    are those written, or those read the ones inserted. -/
structure Succeeded (log : List Call) : Prop where
  fine : ∀ c ∈ log, c.fine = true
  quiet : ¬ Told log
  written : put .stdout log = produced log
  inserted : inserted log = took .stdin log
  ran : ∃ x rest, parseSetup (took .setup log) = some (x, rest) ∧ Ran x log

/-! ### How a run stands -/

/-- Nothing has gone out that was not produced, and nothing in that was not read. -/
def Crossed (log : List Call) : Prop :=
  put .stdout log <+: produced log ∧ inserted log <+: took .stdin log

/-- Nor had it after any of the calls. -/
def Prefixes (log : List Call) : Prop := ∀ before, before <+: log → Crossed before

/-- Nothing has failed.  `rest` is produced and still to be written, and `setup` is what was
    read of the payload. -/
structure Going (setup rest : Bytes) (log : List Call) : Prop where
  prefixes : Prefixes log
  fine : ∀ c ∈ log, c.fine = true
  quiet : ¬ Told log
  written : put .stdout log ++ rest = produced log
  inserted : inserted log = took .stdin log
  setup : took .setup log = setup

/-- The data channel has not broken. -/
structure Sound (log : List Call) : Prop where
  prefixes : Prefixes log
  kept : ¬ Lost log

structure Spoke (log : List Call) : Prop extends Sound log where
  told : Told log

structure Broke (log : List Call) : Prop where
  prefixes : Prefixes log
  lost : Lost log
  quiet : ¬ Told log

/-- How a run stands that ends before `main` returns. -/
def Stops (stop : Stop) (log : List Call) : Prop :=
  Prefixes log ∧ ∀ code, stop = .exits code → code = 1 ∧ Spoke log

/-- How it stands with a status to return. -/
def Finished (setup : Bytes) (status : ℕ) (ran : Prop) (log : List Call) : Prop :=
  (status = 0 ∧ Going setup [] log ∧ ran) ∨ (status = 1 ∧ Spoke log) ∨
    (status = chdbHelperLostBackend ∧ Broke log)

/-- A call on no data of the command's. -/
def Call.aside : Call → Bool
  | .read .stdin _ | .write .stdout _ _ => false
  | .query _ _ reply | .fetchResult _ reply => !reply.isOk
  | .append _ _ success => !success
  | _ => true

/-- One of these that did not fail, and has nothing to do with the payload. -/
def Call.plain (c : Call) : Bool :=
  c.aside && c.fine && !c.speaks &&
    match c with
    | .read .setup _ => false
    | _ => true

section
variable {log t : List Call} {c : Call} {setup rest : Bytes}

theorem Call.aside_put (h : c.aside = true) : c.put .stdout = [] := by
  unfold Call.put
  split
  · rename_i fd _ _
    cases fd <;> first | rfl | cases h
  · rfl

theorem Call.aside_took (h : c.aside = true) : c.took .stdin = [] := by
  unfold Call.took
  split
  · rename_i fd _
    cases fd <;> first | rfl | cases h
  · rfl

theorem Call.aside_produced (h : c.aside = true) : c.produced = [] := by
  unfold Call.produced
  split
  · cases h
  · cases h
  · rfl

theorem Call.aside_inserted (h : c.aside = true) : c.inserted = [] := by
  unfold Call.inserted
  split
  · cases h
  · rfl

theorem Call.aside_lost (h : c.aside = true) : c.lost = false := by
  unfold Call.lost
  split
  · cases h
  · cases h
  · rfl

theorem Prefixes.crossed (h : Prefixes log) : Crossed log := h log List.prefix_rfl

theorem Prefixes.concat (h : Prefixes log) (hc : Crossed (log ++ [c])) : Prefixes (log ++ [c]) := by
  intro before hbefore
  rcases List.prefix_concat_iff.mp hbefore with rfl | hold
  · exact hc
  · exact h before hold

theorem Prefixes.aside (h : Prefixes log) (hc : c.aside = true) : Prefixes (log ++ [c]) :=
  h.concat (by simpa [Crossed, c.aside_put hc, c.aside_produced hc, c.aside_inserted hc,
    c.aside_took hc] using h.crossed)

theorem Sound.aside (h : Sound log) (hc : c.aside = true) : Sound (log ++ [c]) where
  prefixes := h.prefixes.aside hc
  kept := by simpa [c.aside_lost hc] using h.kept

theorem Spoke.aside (h : Spoke log) (hc : c.aside = true) : Spoke (log ++ [c]) where
  toSound := h.toSound.aside hc
  told := told_append.mpr (Or.inl h.told)

theorem Broke.aside (h : Broke log) (hc : c.aside = true) (hs : c.speaks = false) :
    Broke (log ++ [c]) where
  prefixes := h.prefixes.aside hc
  lost := lost_append.mpr (Or.inl h.lost)
  quiet := by simpa [hs] using h.quiet

theorem Going.not_lost (h : Going setup rest log) : ¬ Lost log := by
  unfold Lost
  rw [List.any_eq_true]
  rintro ⟨c, hc, hlost⟩
  rw [c.not_lost_of_fine (h.fine c hc)] at hlost
  cases hlost

theorem Going.sound (h : Going setup rest log) : Sound log where
  prefixes := h.prefixes
  kept := h.not_lost

/-- A call that did not fail, whatever it has moved. -/
theorem Going.concat {setup' rest' : Bytes} (h : Going setup rest log) (hfine : c.fine = true)
    (hs : c.speaks = false)
    (hwritten : put .stdout log ++ c.put .stdout ++ rest' = produced log ++ c.produced)
    (hinserted : c.inserted = c.took .stdin) (hsetup : setup ++ c.took .setup = setup') :
    Going setup' rest' (log ++ [c]) where
  prefixes := h.prefixes.concat
    ⟨⟨rest', by simpa using hwritten⟩, by simp [h.inserted, hinserted]⟩
  fine := by
    intro d hd
    rcases List.mem_append.mp hd with hd | hd
    · exact h.fine d hd
    · rw [List.mem_singleton.mp hd]
      exact hfine
  quiet := by simpa [hs] using h.quiet
  written := by simpa using hwritten
  inserted := by simp [h.inserted, hinserted]
  setup := by simp [h.setup, hsetup]

theorem Call.plain_eq (h : c.plain = true) :
    c.aside = true ∧ c.fine = true ∧ c.speaks = false ∧ c.took .setup = [] := by
  unfold Call.plain at h
  simp only [Bool.and_eq_true, Bool.not_eq_true'] at h
  obtain ⟨⟨⟨haside, hfine⟩, hspeaks⟩, hsetup⟩ := h
  refine ⟨haside, hfine, hspeaks, ?_⟩
  unfold Call.took
  split
  · rename_i fd _
    cases fd <;> first | rfl | cases hsetup
  · rfl

theorem Going.plain (h : Going setup rest log) (hc : c.plain = true) :
    Going setup rest (log ++ [c]) := by
  obtain ⟨haside, hfine, hspeaks, hsetup⟩ := c.plain_eq hc
  refine h.concat hfine hspeaks ?_ ?_ ?_
  · rw [c.aside_put haside, c.aside_produced haside, List.append_nil, List.append_nil, h.written]
  · rw [c.aside_inserted haside, c.aside_took haside]
  · rw [hsetup, List.append_nil]

theorem Finished.plain {status : ℕ} {ran ran' : Prop} (h : Finished setup status ran log)
    (hc : c.plain = true) (hran : ran → ran') : Finished setup status ran' (log ++ [c]) := by
  obtain ⟨haside, -, hspeaks, -⟩ := c.plain_eq hc
  rcases h with ⟨hstatus, hgoing, hdone⟩ | ⟨hstatus, hspoke⟩ | ⟨hstatus, hbroke⟩
  · exact Or.inl ⟨hstatus, hgoing.plain hc, hran hdone⟩
  · exact Or.inr (Or.inl ⟨hstatus, hspoke.aside haside⟩)
  · exact Or.inr (Or.inr ⟨hstatus, hbroke.aside haside hspeaks⟩)

/-- A call that the channel broke at has moved nothing. -/
theorem Prefixes.lost (h : Prefixes log) (hc : c.lost = true) : Prefixes (log ++ [c]) := by
  unfold Call.lost at hc
  split at hc
  · exact h.concat (by simpa [Crossed, Call.put, Call.produced, Call.inserted, Call.took]
      using h.crossed)
  · exact h.concat (by simpa [Crossed, Call.put, Call.produced, Call.inserted, Call.took]
      using h.crossed)
  · cases hc

theorem Going.lost (h : Going setup rest log) (hc : c.lost = true) (hs : c.speaks = false) :
    Broke (log ++ [c]) where
  prefixes := h.prefixes.lost hc
  lost := by simp [hc]
  quiet := by simpa [hs] using h.quiet

/-- Bytes are read, and still to be appended. -/
theorem Going.read {bytes : Bytes} (h : Going setup [] log) :
    Sound (log ++ [.read .stdin (.ok bytes)]) where
  prefixes := by
    refine h.prefixes.concat ⟨?_, ?_⟩
    · simpa [Call.put, Call.produced] using h.prefixes.crossed.1
    · simp [Call.took, Call.inserted, h.inserted]
  kept := by simpa [Call.lost] using h.not_lost

/-- Bytes are read and appended. -/
theorem Going.moved {stream : ℕ} {bytes : Bytes} (h : Going setup [] log) :
    Going setup [] (log ++ [.read .stdin (.ok bytes)] ++ [.append stream bytes true]) where
  prefixes := by
    refine h.read.prefixes.concat ⟨?_, ?_⟩
    · simpa [Call.put, Call.produced] using h.prefixes.crossed.1
    · simp [Call.took, Call.inserted, h.inserted]
  fine := by
    intro c hc
    rw [List.append_assoc] at hc
    rcases List.mem_append.mp hc with hc | hc
    · exact h.fine c hc
    · rcases List.mem_pair.mp hc with rfl | rfl <;> rfl
  quiet := by simpa [Call.speaks] using h.quiet
  written := by simpa [Call.put, Call.produced] using h.written
  inserted := by simp [Call.took, Call.inserted, h.inserted]
  setup := by simpa [Call.took] using h.setup

theorem Sound.cut (h : Sound log) : Stops .cut log := ⟨h.prefixes, nofun⟩

end

/-! ### The functions -/

section
variable {env : Env} {log : List Call} {setup rest : Bytes} {α : Type}

/-- What is said is never empty, so it is said by a call at least. -/
theorem say_ends {text : Text} (h : Sound log) :
    Machine.Ends (say env text) log (fun _ => Spoke) Stops := by
  refine ends_forever (fun text t => Sound t ∧ (Told t ∨ text.bytes ≠ [])) ?_ ?_ ?_
  · rintro text t ⟨hsound, htold⟩
    refine ends_ite (fun hnil => ⟨hsound, htold.resolve_right fun h => h hnil⟩) (fun hnil => ?_)
    · rw [ends_bind]
      refine ends_sysWrite (fun n => ?_) (fun errno _ => ?_) ?_
      · exact ⟨hsound.aside rfl, Or.inl (by simp [Call.speaks])⟩
      · exact ⟨hsound.aside rfl, by simp [Call.speaks]⟩
      · exact ⟨(hsound.aside rfl).prefixes, nofun⟩
  · rintro text t ⟨hsound, -⟩
    exact hsound.cut
  · exact ⟨h, Or.inr (by simp [lit])⟩

theorem fail_ends {what : Bytes} {Q : α → List Call → Prop} (h : Sound log) :
    Machine.Ends (fail env what : Run α) log Q Stops := by
  refine (say_ends h).seq fun _ t hspoke => ?_
  refine ⟨(hspoke.aside (c := .exit 1) rfl).prefixes, ?_⟩
  rintro code hcode
  cases hcode
  exact ⟨rfl, hspoke.aside rfl⟩

theorem notNull_ends (h : Going setup rest log) :
    Machine.Ends (notNull env) log (fun _ => Going setup rest) Stops := by
  unfold notNull
  rw [ends_bind, ends_get, ends_bind, ends_record]
  cases halloc : env.alloc log with
  | true => exact h.plain rfl
  | false => exact fail_ends (h.sound.aside rfl)

theorem readSetup_ends : Machine.Ends (readSetup env) [] (fun p => Going p []) Stops := by
  have hprefixes : Prefixes [] := fun before hbefore => by
    rw [List.prefix_nil.mp hbefore]
    exact ⟨List.prefix_rfl, List.prefix_rfl⟩
  have hstart : Going [] [] [] := ⟨hprefixes, by simp, by simp [Told], rfl, rfl, rfl⟩
  refine (notNull_ends hstart).seq fun _ t ht => ?_
  refine ends_forever (fun b t => Going b.buf [] t) (fun b t hb => ?_)
    (fun b t hb => hb.sound.cut) ht
  unfold readSetupTurn
  cases hgrow : grow b with
  | error e => exact fail_ends hb.sound
  | ok b' =>
    rw [← grow_buf hgrow] at hb
    have halloc : Machine.Ends (onlyIf (b'.cap ≠ b.cap) (notNull env)) t
        (fun _ => Going b'.buf []) Stops := ends_onlyIf (fun _ => notNull_ends hb) fun _ => hb
    refine halloc.seq fun _ u hu => ?_
    rw [ends_bind]
    refine ends_sysRead (fun bytes => ?_) (fun errno => ?_)
    · -- the bytes are the payload's
      have hread : Going (b'.buf ++ bytes) [] (u ++ [.read .setup (.ok bytes)]) :=
        hu.concat rfl rfl (by simpa [Call.put, Call.produced] using hu.written) rfl rfl
      refine ends_ite (fun hnil => ?_) (fun _ => hread)
      rw [hnil, List.append_nil] at hread
      rw [hnil]
      exact hread
    · refine ends_ite (fun hintr => ?_) (fun _ => fail_ends (hu.sound.aside rfl))
      rw [hintr]
      exact hu.concat rfl rfl (by simpa [Call.put, Call.produced] using hu.written) rfl
        (List.append_nil _)

theorem readRequest_ends : Machine.Ends (readRequest env) []
    (fun x t => ∃ p rest, parseSetup p = some (x, rest) ∧ Going p [] t) Stops := by
  refine readSetup_ends.seq fun p t₀ h₀ => ?_
  rw [ends_bind]
  refine ends_taking (fun r hhead => ?_) (fail_ends h₀.sound)
  refine (notNull_ends h₀).seq fun _ t₁ h₁ => ?_
  refine (notNull_ends h₁).seq fun _ t₂ h₂ => ?_
  refine (notNull_ends h₂).seq fun _ t₃ h₃ => ?_
  refine (notNull_ends h₃).seq fun _ t₄ h₄ => ?_
  rw [ends_bind]
  refine ends_taking (fun r' hparams => ?_) (fail_ends h₄.sound)
  exact ⟨p, r'.2, parseSetup_of_parts hhead hparams, h₄⟩

theorem connect_ends (h : Going setup [] log) :
    Machine.Ends (connect env) log (fun _ => Going setup []) Stops := by
  have henabled := h.plain (c := .setSignalHandlersEnabled false) rfl
  unfold connect
  rw [ends_bind, ends_record, ends_bind, ends_get, ends_bind, ends_record]
  cases hconnect : env.connect (log ++ [.setSignalHandlersEnabled false]) with
  | true => exact henabled.plain rfl
  | false => exact fail_ends (henabled.sound.aside rfl)

theorem openSession_ends (x : SetupRequest) (h : Going setup [] log) :
    Machine.Ends (openSession env x) log (fun status => Finished setup status True) Stops := by
  unfold openSession
  rw [ends_bind]
  refine ends_obtain fun reply => ?_
  rw [ends_bind]
  refine ends_resultError (fun text herror => ?_) (fun bytes hok => ?_)
  · cases reply with
    | ok bytes => cases herror
    | error error =>
      refine (say_ends ((h.sound.aside rfl).aside rfl)).seq fun _ t hspoke => ?_
      exact Or.inr (Or.inl ⟨rfl, hspoke.aside rfl⟩)
  · cases reply with
    | error error => cases hok
    | ok bytes => exact Or.inl ⟨rfl, ((h.plain rfl).plain rfl).plain rfl, trivial⟩

/-- All of the bytes go out, or the channel has broken. -/
theorem writeAll_ends {t : Text} (h : Going setup t.bytes log) :
    Machine.Ends (writeAll env t) log (fun written t => log <+: t ∧
      ((written = true ∧ Going setup [] t) ∨ (written = false ∧ Broke t))) Stops := by
  refine ends_forever (fun text t => Going setup text.bytes t ∧ log <+: t) ?_ ?_ ?_
  · rintro text t ⟨hgoing, hext⟩
    have hnext : ∀ c, log <+: t ++ [c] := fun c => hext.trans (List.prefix_append t [c])
    refine ends_ite (fun hnil => ?_) (fun hnil => ?_)
    · rw [hnil] at hgoing
      exact ⟨hext, Or.inl ⟨rfl, hgoing⟩⟩
    · rw [ends_bind]
      refine ends_sysWrite (fun n => ?_) (fun errno _ => ?_) ?_
      · refine ⟨hgoing.concat rfl rfl ?_ rfl (List.append_nil _), hnext _⟩
        show put .stdout t ++ text.bytes.take (n + 1) ++ (text.after _).bytes = produced t ++ []
        rw [List.append_nil, ← hgoing.written, List.append_assoc, text.take_after]
      · refine ends_ite (fun hintr => ?_) (fun hintr => ?_)
        · rw [hintr]
          exact ⟨hgoing.concat rfl rfl (by simpa [Call.put, Call.produced] using hgoing.written) rfl
            (List.append_nil _), hnext _⟩
        · exact ⟨hnext _, Or.inr ⟨rfl, hgoing.lost (by simpa [Call.lost] using hintr) rfl⟩⟩
      · exact ⟨hgoing.prefixes.lost rfl, nofun⟩
  · rintro text t ⟨hgoing, -⟩
    exact hgoing.sound.cut
  · exact ⟨h, List.prefix_rfl⟩

/-- A chunk goes out whole before the next is fetched. -/
theorem selectTurn_ends {stream : ℕ} {c : Call} (h : Going setup [] log) (hc : c ∈ log) :
    Machine.Ends (selectTurn env stream ()) log (Sum.elim (fun _ t => Going setup [] t ∧ c ∈ t)
      fun status t => Finished setup status (c ∈ t ∧ .fetchResult stream (.ok []) ∈ t) t)
      Stops := by
  unfold selectTurn
  rw [ends_bind]
  refine ends_obtain fun reply => ?_
  rw [ends_bind]
  refine ends_resultError (fun text herror => ?_) (fun bytes hok => ?_)
  · cases reply with
    | ok bytes => cases herror
    | error error =>
      refine (say_ends ((h.sound.aside rfl).aside rfl)).seq fun _ t hspoke => ?_
      exact Or.inr (Or.inl ⟨rfl, hspoke.aside rfl⟩)
  · cases reply with
    | error error => cases hok
    | ok bytes' =>
      cases hok
      have hfetched : Going setup bytes (log ++ [.fetchResult stream (.ok bytes)]) :=
        h.concat rfl rfl (by simpa [Call.put, Call.produced] using h.written) rfl
          (List.append_nil _)
      rw [ends_bind]
      refine ends_resultBuffer rfl (fun hnil => ?_) (fun hne => ?_)
      · subst hnil
        exact Or.inl ⟨rfl, ((hfetched.plain rfl).plain rfl).plain rfl, by simp [hc], by simp⟩
      · refine (writeAll_ends (t := ⟨some log.length, bytes⟩)
          (((hfetched.plain rfl).plain rfl).plain rfl)).seq fun written t ⟨hext, ht⟩ => ?_
        rcases ht with ⟨rfl, hgoing⟩ | ⟨rfl, hbroke⟩
        · exact ⟨hgoing.plain rfl, List.mem_append_left _ (hext.subset (by simp [hc]))⟩
        · exact Or.inr (Or.inr ⟨rfl, hbroke.aside rfl rfl⟩)

theorem runSelect_ends (text : Bytes) (params : List (Bytes × Bytes)) (h : Going setup [] log) :
    Machine.Ends (runSelect env text params) log (fun status t =>
      Finished setup status (∃ stream reply, .streamQuery text params reply ∈ t ∧
        .fetchResult stream (.ok []) ∈ t) t) Stops := by
  unfold runSelect
  rw [ends_bind]
  refine ends_obtain fun reply => ?_
  rw [ends_bind]
  refine ends_resultError (fun error herror => ?_) (fun bytes hok => ?_)
  · cases reply with
    | ok bytes => cases herror
    | error error =>
      refine (say_ends ((h.sound.aside rfl).aside rfl)).seq fun _ t hspoke => ?_
      exact Or.inr (Or.inl ⟨rfl, hspoke.aside rfl⟩)
  · cases reply with
    | error error => cases hok
    | ok bytes' =>
      have hopened := (h.plain (c := .streamQuery text params (.ok bytes')) rfl).plain
        (c := .look log.length) rfl
      have hloop : Machine.Ends (forever env (selectTurn env log.length) ())
          (log ++ [.streamQuery text params (.ok bytes')] ++ [.look log.length])
          (fun status t => Finished setup status (.streamQuery text params (.ok bytes') ∈ t ∧
            .fetchResult log.length (.ok []) ∈ t) t) Stops :=
        ends_forever (fun _ t => Going setup [] t ∧ .streamQuery text params (.ok bytes') ∈ t)
          (fun _ t ht => selectTurn_ends ht.1 ht.2) (fun _ t ht => ht.1.sound.cut)
          ⟨hopened, by simp⟩
      refine hloop.seq fun status t hfinished => ?_
      rw [ends_bind]
      refine ends_onlyIf (fun hne => ?_) (fun hzero => ?_)
      · exact (hfinished.plain rfl id).plain rfl fun hran => ⟨_, _,
          List.mem_append_left _ (List.mem_append_left _ hran.1),
          List.mem_append_left _ (List.mem_append_left _ hran.2)⟩
      · exact hfinished.plain rfl fun hran => ⟨_, _,
          List.mem_append_left _ hran.1, List.mem_append_left _ hran.2⟩

theorem runQuery_ends (text : Bytes) (params : List (Bytes × Bytes)) (h : Going setup [] log) :
    Machine.Ends (runQuery env text params) log (fun status t =>
      Finished setup status (∃ bytes, .query text params (.ok bytes) ∈ t) t) Stops := by
  unfold runQuery
  rw [ends_bind]
  refine ends_obtain fun reply => ?_
  rw [ends_bind]
  refine ends_resultError (fun error herror => ?_) (fun bytes hok => ?_)
  · cases reply with
    | ok bytes => cases herror
    | error error =>
      refine (say_ends ((h.sound.aside rfl).aside rfl)).seq fun _ t hspoke => ?_
      exact Or.inr (Or.inl ⟨rfl, hspoke.aside rfl⟩)
  · cases reply with
    | error error => cases hok
    | ok bytes' =>
      cases hok
      have hanswered : Going setup bytes (log ++ [.query text params (.ok bytes)]) :=
        h.concat rfl rfl (by simpa [Call.put, Call.produced] using h.written) rfl
          (List.append_nil _)
      rw [ends_bind]
      refine ends_resultBuffer rfl (fun hnil => ?_) (fun hne => ?_)
      · subst hnil
        exact Or.inl ⟨rfl, ((hanswered.plain rfl).plain rfl).plain rfl, [], by simp⟩
      · refine (writeAll_ends (t := ⟨some log.length, bytes⟩)
          (((hanswered.plain rfl).plain rfl).plain rfl)).seq fun written t ⟨hext, ht⟩ => ?_
        rcases ht with ⟨rfl, hgoing⟩ | ⟨rfl, hbroke⟩
        · exact Or.inl ⟨rfl, hgoing.plain rfl, bytes,
            List.mem_append_left _ (hext.subset (by simp))⟩
        · exact Or.inr (Or.inr ⟨rfl, hbroke.aside rfl rfl⟩)

/-- What is read is appended before the next read. -/
theorem insertTurn_ends {stream : ℕ} {c : Call} (h : Going setup [] log) (hc : c ∈ log) :
    Machine.Ends (insertTurn env stream ()) log (Sum.elim (fun _ t => Going setup [] t ∧ c ∈ t)
      fun r t => match r with
        | none => Going setup [] t ∧ c ∈ t ∧ .read .stdin (.ok []) ∈ t
        | some status => Finished setup status False t) Stops := by
  unfold insertTurn
  rw [ends_bind]
  refine ends_sysRead (fun bytes => ?_) (fun errno => ?_)
  · refine ends_ite (fun hnil => ?_) (fun hne => ?_)
    · subst hnil
      exact ⟨h.concat rfl rfl (by simpa [Call.put, Call.produced] using h.written) rfl
        (List.append_nil _), by simp [hc], by simp⟩
    · rw [ends_bind, ends_get, ends_bind, ends_record]
      cases happend : env.append (log ++ [.read .stdin (.ok bytes)]) with
      | true => exact ⟨h.moved, by simp [hc]⟩
      | false =>
        have hsound : Sound (log ++ [.read .stdin (.ok bytes)] ++ [.append stream bytes false]) :=
          h.read.aside rfl
        refine ends_ite nofun fun _ => ?_
        rw [ends_bind]
        refine ends_streamInsertError fun error => ?_
        have hsaid : ∀ text, Machine.Ends (say env text)
            (log ++ [.read .stdin (.ok bytes)] ++ [.append stream bytes false] ++
              [.insertError stream error]) (fun _ => Spoke) Stops :=
          fun text => say_ends (hsound.aside rfl)
        cases error with
        | none =>
          refine (hsaid _).seq fun _ t hspoke => ?_
          exact Or.inr (Or.inl ⟨rfl, (hspoke.aside rfl).aside rfl⟩)
        | some text =>
          refine (hsaid _).seq fun _ t hspoke => ?_
          exact Or.inr (Or.inl ⟨rfl, (hspoke.aside rfl).aside rfl⟩)
  · refine ends_ite (fun hintr => ?_) (fun hintr => ?_)
    · rw [hintr]
      exact ⟨h.concat rfl rfl (by simpa [Call.put, Call.produced] using h.written) rfl
        (List.append_nil _), by simp [hc]⟩
    · have hbroke := h.lost (c := .read .stdin (.error errno)) (by simpa [Call.lost] using hintr)
        rfl
      exact Or.inr (Or.inr ⟨rfl, (hbroke.aside rfl rfl).aside rfl rfl⟩)

theorem runInsert_ends (text : Bytes) (params : List (Bytes × Bytes)) (h : Going setup [] log) :
    Machine.Ends (runInsert env text params) log (fun status t =>
      Finished setup status (∃ stream bytes, .streamInsert text params ∈ t ∧
        .read .stdin (.ok []) ∈ t ∧ .done stream (.ok bytes) ∈ t) t) Stops := by
  have hopened := h.plain (c := .streamInsert text params) rfl
  unfold runInsert
  rw [ends_bind, ends_get, ends_bind, ends_record, ends_bind]
  refine ends_streamInsertError fun error => ?_
  cases error with
  | some error =>
    refine (say_ends (hopened.sound.aside rfl)).seq fun _ t hspoke => ?_
    exact Or.inr (Or.inl ⟨rfl, hspoke.aside rfl⟩)
  | none =>
    have hstart : Machine.Ends (notNull env) (log ++ [.streamInsert text params] ++
        [.insertError log.length none])
        (fun _ t => Going setup [] t ∧ .streamInsert text params ∈ t) Stops := by
      have hgoing := hopened.plain (c := .insertError log.length none) rfl
      unfold notNull
      rw [ends_bind, ends_get, ends_bind, ends_record]
      refine ends_ite (fun halloc => ?_) (fun halloc => ?_)
      · rw [halloc]
        exact ⟨hgoing.plain rfl, by simp⟩
      · exact fail_ends (hgoing.sound.aside rfl)
    refine hstart.seq fun _ t₁ h₁ => ?_
    refine Machine.Ends.seq
      (ends_forever (fun _ t => Going setup [] t ∧ .streamInsert text params ∈ t)
      (fun _ t ht => insertTurn_ends ht.1 ht.2) (fun _ t ht => ht.1.sound.cut) h₁)
      fun r t₂ h₂ => ?_
    cases r with
    | some status => exact h₂.imp (fun hran => ⟨hran.1, hran.2.1, hran.2.2.elim⟩) id
    | none =>
      obtain ⟨hgoing, hinsert, hend⟩ := h₂
      rw [ends_bind]
      refine ends_obtain fun reply => ?_
      rw [ends_bind]
      refine ends_resultError (fun error herror => ?_) (fun bytes hok => ?_)
      · cases reply with
        | ok bytes => cases herror
        | error error =>
          refine (say_ends ((hgoing.sound.aside rfl).aside rfl)).seq fun _ t hspoke => ?_
          exact Or.inr (Or.inl ⟨rfl, (hspoke.aside rfl).aside rfl⟩)
      · cases reply with
        | error error => cases hok
        | ok bytes' =>
          exact Or.inl ⟨rfl, (((hgoing.plain rfl).plain rfl).plain rfl).plain rfl,
            log.length, bytes', by simp [hinsert], by simp [hend], by simp⟩

theorem runCommand_ends (x : SetupRequest) (h : Going setup [] log) :
    Machine.Ends (runCommand env x) log (fun status t => Finished setup status (Ran x t) t)
      Stops := by
  unfold runCommand
  refine ends_ite (fun hselect => ?_) fun _ => ends_ite (fun hinsert => ?_) fun _ =>
    ends_ite (fun hdescribe => ?_) fun _ => fail_ends h.sound
  · exact (runSelect_ends x.query x.params h).imp fun status t ht =>
      ht.imp (fun hran => ⟨hran.1, hran.2.1, Or.inl ⟨hselect, hran.2.2⟩⟩) id
  · exact (runInsert_ends x.query x.params h).imp fun status t ht =>
      ht.imp (fun hran => ⟨hran.1, hran.2.1, Or.inr (Or.inl ⟨hinsert, hran.2.2⟩)⟩) id
  · exact (runQuery_ends x.query x.params h).imp fun status t ht =>
      ht.imp (fun hran => ⟨hran.1, hran.2.1, Or.inr (Or.inr ⟨hdescribe, hran.2.2⟩)⟩) id

/-- What ran goes on having run. -/
theorem Ran.concat {x : SetupRequest} {c : Call} (h : Ran x log) : Ran x (log ++ [c]) := by
  have hmem : ∀ d, d ∈ log → d ∈ log ++ [c] := fun d hd => List.mem_append_left _ hd
  rcases h with ⟨hcmd, s, r, h₁, h₂⟩ | ⟨hcmd, s, b, h₁, h₂, h₃⟩ | ⟨hcmd, b, h₁⟩
  · exact Or.inl ⟨hcmd, s, r, hmem _ h₁, hmem _ h₂⟩
  · exact Or.inr (Or.inl ⟨hcmd, s, b, hmem _ h₁, hmem _ h₂, hmem _ h₃⟩)
  · exact Or.inr (Or.inr ⟨hcmd, b, hmem _ h₁⟩)

theorem main_ends : Machine.Ends (main env) [] (fun status t => ∃ p x rest,
    parseSetup p = some (x, rest) ∧ Finished p status (Ran x t) t) Stops := by
  refine readRequest_ends.seq fun x t₀ ⟨p, rest, hparse, h₀⟩ => ?_
  refine (connect_ends h₀).seq fun _ t₁ h₁ => ?_
  have hsession : Machine.Ends (runSession env x) t₁
      (fun status t => Finished p status (Ran x t) t) Stops := by
    refine (openSession_ends x h₁).seq fun status t₂ h₂ => ?_
    refine ends_ite (fun hzero => ?_) (fun hne => ?_)
    · refine runCommand_ends x ?_
      rcases h₂ with ⟨-, hgoing, -⟩ | ⟨hone, -⟩ | ⟨htwo, -⟩
      · exact hgoing
      · rw [hone] at hzero
        cases hzero
      · rw [htwo] at hzero
        cases hzero
    · exact h₂.imp (fun h => absurd h.1 hne) id
  refine hsession.seq fun status t₃ h₃ => ?_
  exact ⟨p, x, rest, hparse, (h₃.plain rfl Ran.concat).plain rfl Ran.concat⟩

end

/-! ### The contract -/

/-- The helper exits 0 exactly when everything succeeded, 1 exactly when it had something to
    say, and 2 exactly when the data channel broke. -/
structure Contract (status : ℕ) (log : List Call) : Prop where
  known : status = 0 ∨ status = 1 ∨ status = chdbHelperLostBackend
  success : status = 0 ↔ Succeeded log
  told : status = 1 ↔ Told log
  lost : status = chdbHelperLostBackend ↔ Lost log

section
variable {log : List Call} {setup : Bytes}

theorem Succeeded.not_lost (h : Succeeded log) : ¬ Lost log := by
  intro hlost
  obtain ⟨c, hc, hclost⟩ := List.any_eq_true.mp hlost
  rw [c.not_lost_of_fine (h.fine c hc)] at hclost
  cases hclost

theorem Succeeded.contract (h : Succeeded log) : Contract 0 log where
  known := Or.inl rfl
  success := by simpa using h
  told := by simpa using h.quiet
  lost := by simpa [chdbHelperLostBackend] using h.not_lost

theorem Spoke.contract (h : Spoke log) : Contract 1 log where
  known := Or.inr (Or.inl rfl)
  success := by simpa using fun hs : Succeeded log => hs.quiet h.told
  told := by simpa using h.told
  lost := by simpa [chdbHelperLostBackend] using h.kept

theorem Broke.contract (h : Broke log) : Contract chdbHelperLostBackend log where
  known := Or.inr (Or.inr rfl)
  success := by simpa [chdbHelperLostBackend] using fun hs : Succeeded log => hs.not_lost h.lost
  told := by simpa [chdbHelperLostBackend] using h.quiet
  lost := by simpa using h.lost

end

/-- How the calls stand when the process exits, and that nothing was made up however it ends. -/
theorem calls_stand (env : Env) : Prefixes (calls env) ∧
    ∀ status, exitStatus env = some status →
      (status = 0 ∧ Succeeded (calls env)) ∨ (status = 1 ∧ Spoke (calls env)) ∨
        (status = chdbHelperLostBackend ∧ Broke (calls env)) := by
  have hends : Machine.Ends (main env) [] _ Stops := main_ends
  unfold calls exitStatus
  cases hrun : main env [] with
  | ok status log =>
    obtain ⟨p, x, rest, hparse, hfinished⟩ := hends.ok hrun
    rcases hfinished with ⟨rfl, hgoing, hran⟩ | ⟨rfl, hspoke⟩ | ⟨rfl, hbroke⟩
    · refine ⟨hgoing.prefixes, ?_⟩
      rintro _ ⟨⟩
      exact Or.inl ⟨rfl, hgoing.fine, hgoing.quiet, by simpa using hgoing.written,
        hgoing.inserted, x, rest, by rw [hgoing.setup, hparse], hran⟩
    · refine ⟨hspoke.prefixes, ?_⟩
      rintro _ ⟨⟩
      exact Or.inr (Or.inl ⟨rfl, hspoke⟩)
    · refine ⟨hbroke.prefixes, ?_⟩
      rintro _ ⟨⟩
      exact Or.inr (Or.inr ⟨rfl, hbroke⟩)
  | error stop log =>
    obtain ⟨hprefixes, hexits⟩ := hends.error hrun
    refine ⟨hprefixes, ?_⟩
    cases stop with
    | exits code =>
      rintro _ ⟨⟩
      obtain ⟨rfl, hspoke⟩ := hexits _ rfl
      exact Or.inr (Or.inl ⟨rfl, hspoke⟩)
    | signaled sig => exact nofun
    | cut => exact nofun

/-- **The exit status says how it went.**  Whatever libchdb and the system answer, the status
    the helper exits with keeps the contract; and after every call, however the process ends,
    what it has written is a prefix of the result, and what it has inserted one of what it
    read. -/
theorem main_contract (env : Env) : Prefixes (calls env) ∧
    ∀ status, exitStatus env = some status → Contract status (calls env) := by
  obtain ⟨hprefixes, hstand⟩ := calls_stand env
  refine ⟨hprefixes, fun status hstatus => ?_⟩
  rcases hstand status hstatus with ⟨rfl, hsucceeded⟩ | ⟨rfl, hspoke⟩ | ⟨rfl, hbroke⟩
  · exact hsucceeded.contract
  · exact hspoke.contract
  · exact hbroke.contract

theorem main_contract_oneChunk : exitStatus oneChunk = some 0 ∧ Contract 0 (calls oneChunk) ∧
    put .stdout (calls oneChunk) = lit "7." :=
  have hzero : exitStatus oneChunk = some 0 := by decide +kernel
  ⟨hzero, (main_contract oneChunk).2 0 hzero, by decide +kernel⟩

end PgChdb.Program
