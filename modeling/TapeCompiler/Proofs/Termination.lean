import TapeCompiler.Proofs.Nesting
import Mathlib.Data.List.Dedup

namespace TapeCompiler

open Compile Compilation

namespace Layout

inductive Searches (layout : Layout) (size : Int) : Int → Int → Prop where
  | found {start : Int} (hfree : ∀ i : Nat, i < size → layout.isFree (start + i) = true) :
      Searches layout size start start
  | next {start result : Int} (offset : Nat) (hoffset : offset < size)
      (hfree : ∀ i < offset, layout.isFree (start + i) = true)
      (htaken : layout.isFree (start + offset) = false)
      (h : Searches layout size (start + offset + 1) result) : Searches layout size start result

variable {layout : Layout}

theorem searches_fitFrom (size : Int) {start : Int} {taken : List Int}
    (hsorted : taken.Pairwise (· < ·))
    (htaken : ∀ a, start ≤ a → (layout.isFree a = false ↔ a ∈ taken)) :
    Searches layout size start (fitFrom size start taken) := by
  induction taken generalizing start with
  | nil =>
      refine .found fun i _ => ?_
      have := htaken (start + i) (by omega)
      simpa using this
  | cons head rest ih =>
      obtain ⟨hhead, hrest⟩ := List.pairwise_cons.1 hsorted
      have hfree (a : Int) (hstart : start ≤ a) (hless : a < head) : layout.isFree a = true := by
        have hmem := htaken a hstart
        rw [← Bool.not_eq_false, hmem, List.mem_cons, not_or]
        exact ⟨by omega, fun h => by have := hhead a h; omega⟩
      have hbehind (a : Int) (hstart : start ≤ a) (hne : a ≠ head) :
          layout.isFree a = false ↔ a ∈ rest := by
        rw [htaken a hstart, List.mem_cons, or_iff_right hne]
      rw [fitFrom]
      split
      -- A taken cell before the start does not count, and one behind the region ends the search.
      · exact ih hrest fun a ha => hbehind a ha (by omega)
      · split
        · exact .found fun i hi => hfree _ (by omega) (by omega)
        · have hoffset : start + ((head - start).toNat : Int) = head := by omega
          refine .next (head - start).toNat (by omega)
            (fun i hi => hfree _ (by omega) (by omega)) ?_ ?_
          · rw [hoffset, htaken head (by omega)]
            exact List.mem_cons_self
          · rw [hoffset]
            exact ih hrest fun a ha => hbehind a (by omega) (by omega)

theorem searches_firstFit (layout : Layout) (size : Int) :
    Searches layout size 0 (layout.firstFit size) := by
  refine searches_fitFrom size (List.pairwise_map.2 (layout.sorted.filter _)) fun a _ => ?_
  simp only [isFree, decide_eq_false_iff_not]
  constructor
  · intro hstatus
    obtain ⟨o, ho⟩ := recorded_of_status hstatus
    rw [status_of_mem ho] at hstatus
    exact List.mem_map.2 ⟨(a, o), List.mem_filter.2 ⟨ho, by simpa using hstatus⟩, rfl⟩
  · intro hmem
    obtain ⟨⟨_, o⟩, hx, rfl⟩ := List.mem_map.1 hmem
    obtain ⟨ho, hne⟩ := List.mem_filter.1 hx
    rw [status_of_mem ho]
    simpa using hne

end Layout

theorem Functions.Scoped.leave {names : List String} {depth : Nat} {functions : Functions}
    (h : Scoped names depth functions) : Scoped names (depth + 1) functions.leave := by
  refine ⟨h.known, h.nodup.sublist (List.dropLast_sublist _),
    fun n hn => h.inside n (List.mem_of_mem_dropLast hn), ?_⟩
  have hroom := h.room
  simp only [Functions.leave, List.length_dropLast]
  omega

namespace Agenda

variable {options : CompileOptions} {names : List String} {s : Agenda}

structure Bounded (names : List String) (s : Agenda) : Prop where
  functions : ∃ depth, Functions.Scoped names depth s.state.functions
  jobs : ∀ job ∈ s.jobs, ∀ n ∈ job.names, n ∈ names

theorem Bounded.step (h : s.Bounded names) : (s.step options).Bounded names := by
  obtain ⟨raised, jobs, c⟩ := s
  cases jobs with
  | nil => exact h
  | cons job rest =>
      obtain ⟨⟨depth, hscoped⟩, hall⟩ := h
      obtain ⟨hjob, hrest⟩ := List.forall_mem_cons.1 hall
      obtain ⟨jobs, hjobs, hmoves⟩ := step_moves options raised job rest c
      suffices hnew : (∃ depth, Functions.Scoped names depth
          (Agenda.step options ⟨raised, job :: rest, c⟩).state.functions) ∧
          ∀ t ∈ jobs, ∀ n ∈ t.names, n ∈ names by
        refine ⟨hnew.1, fun t ht => ?_⟩
        rw [hjobs] at ht
        exact (List.mem_append.1 ht).elim (hnew.2 t) (hrest t)
      generalize (Agenda.step options ⟨raised, job :: rest, c⟩).state.functions = functions
        at hmoves ⊢
      cases hmoves with
      | keep hreturn hleft =>
          exact ⟨⟨depth, hscoped⟩, fun t ht n hn => hjob n ((hleft t ht).2 n hn)⟩
      | define =>
          exact ⟨⟨depth, hscoped.define (hjob _ List.mem_cons_self)
            fun n hn => hjob n (List.mem_cons_of_mem _ hn)⟩, fun t ht => by cases ht⟩
      | enter henter =>
          obtain ⟨rest, -, hentered⟩ := hscoped.enter henter
          refine ⟨⟨rest, hentered⟩, ?_⟩
          simpa [Job.names] using (hscoped.known (Functions.enter_ok.1 henter).1).2
      | leave => exact ⟨⟨depth + 1, hscoped.leave⟩, fun t ht => by cases ht⟩

theorem Bounded.start (nodes : List Node) :
    (start nodes .initial).Bounded (Functions.initial.reachable nodes) := by
  refine ⟨⟨_, Functions.scoped_bound List.nodup_nil (fun n hn => by cases hn) nodes⟩, ?_⟩
  intro job hjob n hn
  rw [List.mem_singleton.1 hjob] at hn
  exact List.mem_append_right _ hn

def result (nodes : List Node) (s : Agenda) : EStateM.Result CompileError Compilation Unit :=
  match s.raised with
  | none => .ok () (s.state.record
      (.compiled nodes.length s.state.code.length s.state.layout.highWater))
  | some error => .error error s.state

theorem program_ends (options : CompileOptions) (nodes : List Node) : ∃ n,
    ((start nodes .initial).after options n).jobs = [] ∧
      ∀ c, program options nodes c = ((start nodes .initial).after options n).result nodes := by
  obtain ⟨n, hn⟩ := statements_reaches options nodes .initial
  refine ⟨n, ?_, fun c => ?_⟩
  · rw [hn]
    cases statements options nodes .initial <;> rfl
  · change EStateM.bind (statements options nodes) _ .initial = _
    rw [hn]
    unfold EStateM.bind
    cases statements options nodes .initial <;> rfl

end Agenda

theorem Functions.mem_reachable_initial {nodes : List Node} {name : String}
    (h : name ∈ Functions.initial.reachable nodes) :
    name = "__dump" ∨ name ∈ Node.definedIn nodes := by
  simpa [reachable, initial, Table.insert, Table.empty, Table.insertInto, Node.definedIn,
    Node.defined] using h

open Agenda in
theorem compilation_ends (options : CompileOptions) (nodes : List Node) :
    (∃ n, ((start nodes .initial).after options n).jobs = [] ∧
      ∀ c, program options nodes c = ((start nodes .initial).after options n).result nodes) ∧
    (∀ n, let s := (start nodes .initial).after options n
      s.state.functions.expanding.Nodup ∧
      (∀ name ∈ s.state.functions.expanding,
        name ∈ Node.definedIn nodes ∨ Functions.initial.contains name = true) ∧
      s.nesting = s.state.functions.expanding.length ∧
      s.nesting ≤ (Node.definedIn nodes).dedup.length + 1) ∧
    ∀ (layout : Layout) (size : Int), layout.Searches size 0 (layout.firstFit size) := by
  refine ⟨program_ends options nodes, fun n => ?_, Layout.searches_firstFit⟩
  obtain ⟨⟨depth, hscoped⟩, -⟩ := after_invariant (P := Bounded (Functions.initial.reachable nodes))
    (fun h => h.step) (Bounded.start nodes) n
  obtain ⟨inner, hexpanding, hlength⟩ := after_invariant (s := start nodes .initial)
    (P := Nested []) (fun h => h.step) ⟨[], rfl, rfl⟩ n
  generalize (start nodes .initial).after options n = s at hscoped hexpanding hlength ⊢
  have hnesting : s.nesting = s.state.functions.expanding.length := by
    rw [hexpanding, List.nil_append, hlength]
  refine ⟨hscoped.nodup, fun name hname => ?_, hnesting, ?_⟩
  · rcases Functions.mem_reachable_initial (hscoped.inside name hname) with rfl | hdefined
    · exact .inr rfl
    · exact .inl hdefined
  · have hsubset : s.state.functions.expanding ⊆ "__dump" :: (Node.definedIn nodes).dedup := by
      intro name hname
      rw [List.mem_cons, List.mem_dedup]
      exact Functions.mem_reachable_initial (hscoped.inside name hname)
    have hle := (hscoped.nodup.subperm hsubset).length_le
    rwa [hnesting]

end TapeCompiler
