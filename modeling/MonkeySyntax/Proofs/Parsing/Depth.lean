import MonkeySyntax.Proofs.Parsing.Course

/-! # Open expressions along a course

Expressions are opened one by one and closed again, whatever becomes of them, and no more than the
limit allows are open at any time.

* `Event.Refuses`: the event says that expressions are nested too deeply.
* **`Event.Guarded limit e`** — the event respects the limit.
* **`Course.guarded`** — all events of a course do, and `Course.depth_eq` — it closes what it opens. -/

namespace MonkeySyntax

/-- The event reports that expressions are nested too deeply. -/
def Event.Refuses (e : Event) : Prop :=
  ∃ opener limit position, e.note? = some (opener, ⟨.nestingTooDeep limit, position⟩)

/-- **An event respects the limit** on the number of open expressions. -/
structure Event.Guarded (limit : Nat) (e : Event) : Prop where
  /-- No more expressions are open than the limit allows. -/
  depth_le : e.before.depth ≤ limit
  /-- An expression is closed only where one is open. -/
  leave : e.step = .leave → 0 < e.before.depth
  /-- Where an expression is to be opened this is refused exactly at the limit. -/
  refuses_iff : e.step = .enter ∨ e.step = .refuse → (e.Refuses ↔ e.before.depth = limit)
  /-- Nowhere else anything is said about the limit. -/
  refuse : e.Refuses → e.step = .refuse

/-- Where an expression is refused the limit is met. -/
theorem Event.Guarded.depth_eq {limit : Nat} {e : Event} (h : e.Guarded limit)
    (hstep : e.step = .refuse) : e.before.depth = limit := by
  refine (h.refuses_iff (.inr hstep)).1
    ⟨e.before.index, e.before.grammar.depthLimit, e.before.current.span.start, ?_⟩
  rw [note?, hstep]

/-- Nothing is open before a source is read. -/
@[simp] theorem Parser.depth_ofTokens (g : Grammar) (ts : List Token) :
    (ofTokens g ts).depth = 0 := by
  simp [ofTokens]

/-- No more expressions are open than the limit of the parser allows. -/
structure Parser.Within (limit : Nat) (p : Parser) : Prop where
  /-- This is the limit. -/
  limit_eq : p.grammar.depthLimit = limit
  /-- It is respected. -/
  depth_le : p.depth ≤ limit

theorem Parser.Within.later {limit : Nat} {p q : Parser} (hp : p.Within limit) (h : Later p q) :
    q.Within limit :=
  ⟨by rw [h.grammar_eq, hp.limit_eq], by rw [h.depth_eq]; exact hp.depth_le⟩

theorem Parser.Within.advance {limit : Nat} {p : Parser} (hp : p.Within limit) :
    p.advance.Within limit :=
  hp.later (later_advance p)

section Guarded

variable {limit : Nat} {p : Parser}

/-- Nothing but the refusal to open an expression says that the limit was met. -/
theorem guarded_advance (h : p.depth ≤ limit) : Event.Guarded limit ⟨p, .advance⟩ := by
  constructor <;> simp [h, Event.Refuses, Event.note?]

theorem guarded_restart (h : p.depth ≤ limit) (complete : Bool) :
    Event.Guarded limit ⟨p, .restart complete⟩ := by
  constructor <;> simp [h, Event.Refuses, Event.note?]

theorem guarded_report (h : p.depth ≤ limit) {cause : Cause}
    (hcause : ∀ l, cause ≠ .nestingTooDeep l) (place opener : Nat) :
    Event.Guarded limit ⟨p, .report cause place opener⟩ := by
  constructor <;> simp [h, Event.Refuses, Event.note?, hcause]

theorem guarded_enter (h : p.depth < limit) : Event.Guarded limit ⟨p, .enter⟩ := by
  constructor <;> simp [Event.Refuses, Event.note?] <;> omega

theorem guarded_leave (h : p.depth ≤ limit) (hopen : 0 < p.depth) :
    Event.Guarded limit ⟨p, .leave⟩ := by
  constructor <;> simp [h, hopen, Event.Refuses, Event.note?]

theorem guarded_refuse (h : p.depth = limit) : Event.Guarded limit ⟨p, .refuse⟩ := by
  constructor <;> simp [h, Event.Refuses, Event.note?]

end Guarded

namespace Course

variable {free : Parser → Prop} {routine : Routine} {p q : Parser} {ok : Bool} {log : List Event}

/-- **A course closes what it opens**, whether it gives a value or not. -/
theorem depth_eq (h : Course free routine p ok log q) : q.depth = p.depth :=
  h.later.depth_eq

/-- **Every event of a course respects the limit**, by induction on the course: behind each part of it
as many expressions are open as before. -/
theorem guarded {limit : Nat} (h : Course free routine p ok log q) (hp : p.Within limit) :
    ∀ e ∈ log, e.Guarded limit := by
  induction h with
  | refused hfull =>
    simpa using guarded_refuse (Nat.le_antisymm hp.depth_le (hp.limit_eq ▸ hfull))
  | opened hroom hinside ih =>
    -- what is closed here is what was opened, since inside as many were closed as opened
    have hdepth := hinside.depth_eq
    rw [Parser.withDepth_depth] at hdepth
    rw [hp.limit_eq] at hroom
    simp only [List.forall_mem_cons, List.forall_mem_append]
    exact ⟨guarded_enter hroom, ih ⟨hp.limit_eq, hroom⟩, guarded_leave (by omega) (by omega),
      by simp⟩
  | noExpression | invalidInteger | missing | blockMissing | unclosed =>
    simpa using guarded_report hp.depth_le (by simp [Parser.unexpected]) _ _
  | operatorsEnd | done | closed | programEnd => simp
  | firstFails _ _ ih | first _ _ ih | branch _ ih | statement _ ih | keyword _ _ ih => exact ih hp
  | firstRead _ hfirst _ ih ih' | expressionStatement hfirst _ ih ih' =>
    exact List.forall_mem_append.2 ⟨ih hp, ih' (hp.later hfirst.later)⟩
  | operatorFails _ _ ih | required _ _ _ ih | passed _ _ _ ih | blockFails _ _ ih | block _ _ ih =>
    exact List.forall_mem_cons.2 ⟨guarded_advance hp.depth_le, ih hp.advance⟩
  | operatorRead _ hfirst _ ih ih' | operand _ hfirst _ ih ih' | blockRead _ hfirst _ ih ih' =>
    simp only [List.forall_mem_cons, List.forall_mem_append]
    exact ⟨guarded_advance hp.depth_le, ih hp.advance, ih' (hp.advance.later hfirst.later)⟩
  | item _ _ hstatement _ ih ih' =>
    have hq := hp.later hstatement.later
    simp only [List.forall_mem_cons, List.forall_mem_append]
    exact ⟨ih hp, guarded_advance hq.depth_le, ih' hq.advance⟩
  | @programItem p q _ found _ _ _ _ hstatement _ ih ih' =>
    have hq := hp.later hstatement.later
    have hr := hq.later (later_restart found q)
    simp only [List.forall_mem_cons, List.forall_mem_append]
    exact ⟨ih hp, guarded_restart hq.depth_le _, guarded_advance hr.depth_le, ih' hr.advance⟩

end Course

end MonkeySyntax
