import MonkeySyntax.Diagnostic.Report
import MonkeySyntax.Proofs.Token.Spelling

/-! # Texts on a single line

Neither a token nor a message about one runs over several lines.

* **`SingleLine text`** — the text has no line feed.
* `singleLine_toDigits`, `singleLine_quoted`, `singleLine_name`, … — the parts that messages are made of.
* `Kind.Spelt.singleLine` — the texts of tokens.
* **`Cause.singleLine_message`** — a message has no line feed if the trace in it has none. -/

namespace MonkeySyntax

/-- **The text stands on a single line**: it has no line feed. -/
def SingleLine (text : List Char) : Prop :=
  '\n' ∉ text

instance (text : List Char) : Decidable (SingleLine text) := inferInstanceAs (Decidable (¬ _))

@[simp] theorem singleLine_nil : SingleLine [] := List.not_mem_nil

@[simp] theorem singleLine_cons {c : Char} {text : List Char} :
    SingleLine (c :: text) ↔ c ≠ '\n' ∧ SingleLine text := by
  rw [SingleLine, List.mem_cons, not_or]
  exact and_congr_left' ne_comm

@[simp] theorem singleLine_append {text other : List Char} :
    SingleLine (text ++ other) ↔ SingleLine text ∧ SingleLine other := by
  rw [SingleLine, List.mem_append, not_or]
  rfl

@[simp] theorem singleLine_replicate {n : Nat} {c : Char} (h : c ≠ '\n') :
    SingleLine (List.replicate n c) :=
  fun hmem => h (List.eq_of_mem_replicate hmem).symm

/-! ### Numbers, quotes and names -/

/-- Digits are no line feeds, in whatever base. -/
theorem singleLine_toDigits {base : Nat} (hbase : 1 < base) (n : Nat) :
    SingleLine (Nat.toDigits base n) := by
  have hdigit (n : Nat) : SingleLine [n.digitChar] := by simp [Nat.digitChar_ne]
  induction n using Nat.strong_induction_on with
  | _ n ih =>
    rw [Nat.toDigits_eq_if hbase]
    split
    · exact hdigit n
    · next hge => exact singleLine_append.2 ⟨ih _ (Nat.div_lt_self (by omega) hbase), hdigit _⟩

theorem singleLine_repr (n : Nat) : SingleLine (Nat.repr n).toList := by
  rw [Nat.repr, String.toList_ofList]
  exact singleLine_toDigits (by decide) n

/-- Between quotes a line feed is written in two other characters. -/
theorem singleLine_escaped (c : Char) : SingleLine (escaped c) := by
  unfold escaped
  split
  · decide
  · decide
  · decide
  · decide
  · decide
  · decide
  · next hfeed _ _ _ =>
    split
    · exact singleLine_append.2 ⟨singleLine_append.2 ⟨by decide, singleLine_toDigits (by decide) _⟩,
        by decide⟩
    · simpa using hfeed

theorem singleLine_quoted (text : String) : SingleLine (quoted text).toList := by
  have hescaped : SingleLine (text.toList.flatMap escaped) := by
    intro hmem
    obtain ⟨c, -, hc⟩ := List.mem_flatMap.1 hmem
    exact singleLine_escaped c hc
  simp [quoted, hescaped]

theorem singleLine_name (k : Kind) : SingleLine k.name.toList := by
  cases k <;> decide

/-- Texts on a single line stand on a single line also with blanks between them. -/
theorem singleLine_intercalate {texts : List String} (h : ∀ t ∈ texts, SingleLine t.toList) :
    SingleLine (" ".intercalate texts).toList := by
  induction texts with
  | nil => decide
  | cons t texts ih =>
    obtain ⟨ht, htexts⟩ := List.forall_mem_cons.1 h
    cases texts with
    | nil => rwa [String.intercalate_singleton]
    | cons u texts =>
      rw [String.intercalate_cons_cons, String.toList_append, String.toList_append]
      exact singleLine_append.2 ⟨singleLine_append.2 ⟨ht, by decide⟩, ih htexts⟩

/-! ### Tokens and messages -/

/-- **The text of a token has no line feed**, which would be a blank. -/
theorem Kind.Spelt.singleLine {k : Kind} {text : List Char} (h : k.Spelt text) : SingleLine text := by
  intro hmem
  cases h with
  | word hall => exact absurd (hall _ hmem) (by decide)
  | number hall => exact absurd (hall _ hmem) (by decide)
  | equals => exact absurd hmem (by decide)
  | notEquals => exact absurd hmem (by decide)
  | symbol _ _ hblank =>
    obtain rfl := List.mem_singleton.1 hmem
    exact absurd hblank (by decide)

/-- The trace in a cause, if there is one, has no line feed. -/
def Cause.SingleLine : Cause → Prop
  | .unexpectedToken _ _ trace => MonkeySyntax.SingleLine trace.toList
  | _ => True

/-- **A message has no line feed** if the trace in it has none. -/
theorem Cause.singleLine_message {cause : Cause} (h : cause.SingleLine) :
    MonkeySyntax.SingleLine cause.message.toList := by
  unfold message
  cases cause with
  | unexpectedToken expected found trace =>
    have htrace : MonkeySyntax.SingleLine trace.toList := h
    simp only [String.toList_append, singleLine_append, singleLine_name, htrace, and_true]
    decide +kernel
  | noExpression kind =>
    simp only [String.toList_append, singleLine_append, singleLine_name, and_true]
    decide +kernel
  | invalidInteger literal =>
    simp only [String.toList_append, singleLine_append, singleLine_quoted, and_true]
    decide +kernel
  | nestingTooDeep limit =>
    simp only [String.toList_append, singleLine_append, singleLine_repr, and_true]
    decide +kernel

/-- Nor has a tip. -/
theorem Cause.singleLine_tip (cause : Cause) :
    ∀ tip ∈ cause.tip?, MonkeySyntax.SingleLine tip.toList := by
  cases cause with
  | noExpression kind => cases kind <;> decide +kernel
  | _ =>
    rintro tip ⟨⟩
    decide +kernel

/-- **The headline of a report has no line feed** if the trace in it has none. -/
theorem Diagnostic.singleLine_headline {d : Diagnostic} (h : d.cause.SingleLine) :
    SingleLine d.headline.toList := by
  have hname : SingleLine d.cause.name.toList := by
    unfold Cause.name
    split <;> decide +kernel
  have hmessage : SingleLine d.message.toList := Cause.singleLine_message h
  have htip := d.cause.singleLine_tip
  rw [headline]
  cases htip? : d.cause.tip? with
  | none =>
    simp only [String.toList_append, singleLine_append, hname, hmessage, and_true]
    decide +kernel
  | some tip =>
    have htip : SingleLine tip.toList := htip tip htip?
    simp only [String.toList_append, singleLine_append, hname, hmessage, htip, and_true]
    decide +kernel

end MonkeySyntax
