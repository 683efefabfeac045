import Mathlib.Data.List.Perm.Subperm
import RecordSchema.Proofs.Record.Place
import RecordSchema.Proofs.Registry.Construct

/-! Construction ends on every registry, in whatever circles its references lead. The types under
construction are distinct and registered, so neither calls nor records nest deeper than there are
types to go through (`instantiate_bounded`). -/

namespace RecordSchema.Registry

/-! ## Traced runs -/

/-- A call of construction: the type to build, inside the types under construction. -/
structure Call where
  chain : List String
  name : String

/-- A run that notes its calls in order. It has no outcome if it gives up. -/
abbrev Traced := ExceptT Error (StateT (List Call) Option)

def giveUp {α : Type} : Traced α := ExceptT.mk fun _ => none

def note (call : Call) : Traced Unit := modify (· ++ [call])

/-- What one call of construction does, where `build` stands for the calls that it makes in turn. -/
def buildStep {m : Type → Type} [Monad m] [MonadExcept Error m] (registry : Registry)
    (build : List String → String → m Record) (chain : List String) (name : String) : m Record :=
  if name ∈ chain then throw (.recursiveType (chain ++ [name]))
  else if name = Host.dynamicEntity then pure (.entity name RecordOf.defaultCategory)
  else if name = Host.dynamicAsset then pure (.asset name)
  else match registry.lookup name with
    | none => pure (.struct name)
    | some descriptor =>
        descriptor.references.foldlM (fun record (field, target) =>
          if field = RecordOf.identityName then pure record
          else do
            let nested ← build (chain ++ [name]) target
            MonadExcept.ofExcept (record.set field (.record nested))) (.struct name)

/-- Construction that notes every call it makes, and gives up at one that stands inside as many
others as the limit says. -/
def traced (registry : Registry) : Nat → List String → String → Traced Record
  | 0, _, _ => giveUp
  | limit + 1, chain, name => do
      note ⟨chain, name⟩
      registry.buildStep (registry.traced limit) chain name

variable {registry : Registry} {chain : List String} {name : String} {α β : Type}
  {P : Call → Prop}

theorem ofExcept_eq (plain : Except Error α) :
    (MonadExcept.ofExcept plain : Except Error α) = plain := by
  cases plain <;> rfl

/-- Construction goes on by such steps, with no limit and no notes. -/
theorem construct_eq_buildStep (registry : Registry) (chain : List String) (name : String) :
    registry.construct chain name = registry.buildStep registry.construct chain name := by
  unfold buildStep
  by_cases fresh : name ∈ chain
  · rw [construct_of_mem fresh, if_pos fresh]
    rfl
  rw [if_neg fresh]
  by_cases he : name = Host.dynamicEntity
  · subst he
    rw [construct_entity fresh, if_pos rfl]
    rfl
  rw [if_neg he]
  by_cases ha : name = Host.dynamicAsset
  · subst ha
    rw [construct_asset fresh, if_pos rfl]
    rfl
  rw [if_neg ha]
  cases known : registry.lookup name with
  | none => exact construct_unknown fresh he ha known
  | some descriptor =>
      simp only [ofExcept_eq]
      exact construct_eq_fill fresh he ha known

/-- The traced run ends as the plain one does, and `P` holds of the calls that it notes. -/
def Traces (P : Call → Prop) (plain : Except Error α) (run : Traced α) : Prop :=
  ∀ seen, ∃ calls, run.run.run seen = some (plain, seen ++ calls) ∧ ∀ call ∈ calls, P call

namespace Traces

theorem pure (a : α) : Traces P (.ok a) (pure a) :=
  fun seen => ⟨[], by rw [List.append_nil]; rfl, List.forall_mem_nil _⟩

theorem throw (e : Error) : Traces P (.error e) (throw e : Traced α) :=
  fun seen => ⟨[], by rw [List.append_nil]; rfl, List.forall_mem_nil _⟩

theorem ofExcept (plain : Except Error α) :
    Traces P (MonadExcept.ofExcept plain) (MonadExcept.ofExcept plain) := by
  cases plain with
  | ok a => exact pure a
  | error e => exact throw e

theorem bind {plain : Except Error α} {run : Traced α} {f : α → Except Error β}
    {g : α → Traced β} (h : Traces P plain run) (hf : ∀ a, Traces P (f a) (g a)) :
    Traces P (plain >>= f) (run >>= g) := by
  intro seen
  obtain ⟨calls, hrun, hcalls⟩ := h seen
  rw [ExceptT.run_bind, StateT.run_bind, hrun]
  cases plain with
  | error e => exact ⟨calls, rfl, hcalls⟩
  | ok a =>
      obtain ⟨more, hmore, hmores⟩ := hf a (seen ++ calls)
      refine ⟨calls ++ more, ?_, List.forall_mem_append.mpr ⟨hcalls, hmores⟩⟩
      rw [← List.append_assoc]
      exact hmore

theorem noted {call : Call} {plain : Except Error α} {run : Traced α} (hc : P call)
    (h : Traces P plain run) : Traces P plain (do note call; run) := by
  intro seen
  obtain ⟨calls, hrun, hcalls⟩ := h (seen ++ [call])
  refine ⟨call :: calls, ?_, List.forall_mem_cons.mpr ⟨hc, hcalls⟩⟩
  rw [List.append_cons, ← hrun]
  rfl

theorem foldlM {f : β → α → Except Error β} {g : β → α → Traced β} {items : List α}
    (h : ∀ b, ∀ a ∈ items, Traces P (f b a) (g b a)) (b : β) :
    Traces P (items.foldlM f b) (items.foldlM g b) := by
  induction items generalizing b with
  | nil => exact pure b
  | cons a rest ih =>
      rw [List.foldlM_cons, List.foldlM_cons]
      exact (h b a List.mem_cons_self).bind
        (ih fun b' other ho => h b' other (List.mem_cons_of_mem _ ho))

/-- A step makes calls of its own only for a registered type that is not under construction. -/
theorem buildStep {build : List String → String → Except Error Record}
    {build' : List String → String → Traced Record}
    (h : name ∉ chain → registry.contains name = true →
      ∀ target, Traces P (build (chain ++ [name]) target) (build' (chain ++ [name]) target)) :
    Traces P (registry.buildStep build chain name) (registry.buildStep build' chain name) := by
  unfold Registry.buildStep
  split
  · exact throw _
  rename_i fresh
  split
  · exact pure _
  split
  · exact pure _
  cases known : registry.lookup name with
  | none => exact pure _
  | some descriptor =>
      refine foldlM (fun record reference _ => ?_) _
      obtain ⟨field, target⟩ := reference
      dsimp only
      split
      · exact pure _
      · have registered : registry.contains name = true := by rw [contains, known, Option.isSome_some]
        exact (h fresh registered target).bind fun nested => ofExcept _

end Traces

/-! ## The types under construction -/

/-- The types of a chain are registered, and none stands in it twice. -/
structure Underway (registry : Registry) (chain : List String) : Prop where
  distinct : chain.Nodup
  known : ∀ name ∈ chain, registry.contains name = true

namespace Underway

theorem nil : Underway registry [] := ⟨List.nodup_nil, List.forall_mem_nil _⟩

theorem append (h : Underway registry chain) (fresh : name ∉ chain)
    (known : registry.contains name = true) : Underway registry (chain ++ [name]) where
  distinct := by
    rw [← List.concat_eq_append]
    exact h.distinct.concat fresh
  known := List.forall_mem_append.mpr ⟨h.known, List.forall_mem_singleton.mpr known⟩

theorem length_le (h : Underway registry chain) : chain.length ≤ registry.size := by
  have subset : chain ⊆ registry.names :=
    fun name hm => contains_iff_mem_names.mp (h.known name hm)
  calc
    chain.length ≤ registry.names.length := (List.subperm_of_subset h.distinct subset).length_le
    _ = registry.size := List.length_map _

end Underway

/-- The induction is on the limit, which shrinks as the chain grows: the chain cannot use up all
registered types, so the limit is not used up either. -/
theorem traces_construct {limit : Nat} (h : Underway registry chain)
    (enough : registry.size < chain.length + limit) :
    Traces (fun call => Underway registry call.chain) (registry.construct chain name)
      (registry.traced limit chain name) := by
  induction limit generalizing chain name with
  | zero =>
      have hle := h.length_le
      omega
  | succ limit ih =>
      rw [construct_eq_buildStep]
      refine Traces.noted h (Traces.buildStep fun fresh known target => ?_)
      refine ih (h.append fresh known) ?_
      rw [List.length_append, List.length_singleton]
      omega

/-- What is built inside a chain stands below as many records as the chain has types. -/
theorem construct_shallow {result : Record} (hb : registry.construct chain name = .ok result)
    (h : Underway registry chain) (hint : String) :
    Everywhere registry (fun place _ => place.depth ≤ registry.size) ⟨hint, chain.length⟩
      (.record result) := by
  refine construct_induction (P := fun chain _ result => Underway registry chain → ∀ hint,
    Everywhere registry (fun place _ => place.depth ≤ registry.size) ⟨hint, chain.length⟩
      (.record result)) ?_ ?_ hb h hint
  · intro chain name shape fresh h hint
    exact Everywhere.record_iff.mpr ⟨h.length_le, fun _ he => absurd he List.not_mem_nil⟩
  · intro chain name descriptor result fresh _ _ known hfill ih h hint
    refine Everywhere.record_iff.mpr ⟨h.length_le, ?_⟩
    rintro ⟨field, value⟩ he
    obtain ⟨target, nested, _, _, hn, rfl⟩ := (mem_fill hfill he).resolve_left List.not_mem_nil
    have registered : registry.contains name = true := by rw [contains, known, Option.isSome_some]
    have deeper := ih hn (h.append fresh registered) (result.hint registry field)
    rwa [List.length_append, List.length_singleton] at deeper

/-- Whatever the references of a registry are, construction needs no limit. Under any limit beyond
the number of registered types it ends as it does without one; the types under construction at each
of its calls are distinct and registered, so there are no more of them than that; and all that a new
record holds stands below no more records than that. -/
theorem instantiate_bounded (registry : Registry) (name : String) :
    (∀ limit, registry.size < limit →
      ∃ calls, (registry.traced limit [] name).run.run [] =
          some (registry.instantiate name, calls) ∧
        ∀ call ∈ calls, call.chain.Nodup ∧
          (∀ other ∈ call.chain, registry.contains other = true) ∧
          call.chain.length ≤ registry.size) ∧
    ∀ record, registry.instantiate name = .ok record →
      Everywhere registry (fun place _ => place.depth ≤ registry.size) ⟨name, 0⟩
        (.record record) := by
  refine ⟨?_, fun record h => construct_shallow h .nil name⟩
  intro limit enough
  have traces : Traces (fun call => Underway registry call.chain) (registry.construct [] name)
      (registry.traced limit [] name) :=
    traces_construct .nil (by rwa [List.length_nil, Nat.zero_add])
  obtain ⟨calls, hrun, hcalls⟩ := traces []
  exact ⟨calls, hrun, fun call hc =>
    ⟨(hcalls call hc).distinct, (hcalls call hc).known, (hcalls call hc).length_le⟩⟩

end RecordSchema.Registry
