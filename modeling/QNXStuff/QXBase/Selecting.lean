import QNXStuff.QXBase.TableNames

/-! The position and the filters of a connection after it has changed to another table. -/

namespace QNXStuff.QXBase

open Execution LinkedList

section Search

variable {server : TableServer} {name : String} {fuel : Nat} {start : Option TableRef}

/-- The search for a name goes through the loaded tables. -/
theorem findTable_found {ref : TableRef}
    (found : findTable server name fuel start = .ok (some ref)) :
    ref ∈ walk (fun ref => (server.heap ref).next) fuel start ∧ server.name ref = some name := by
  induction fuel generalizing start with
  | zero => cases start <;> cases found
  | succ fuel ih =>
    cases start with
    | none => cases found
    | some first =>
      simp only [findTable] at found
      split at found
      · next desc table =>
        split at found
        · next same =>
          cases found
          refine ⟨List.mem_cons_self, ?_⟩
          unfold TableServer.name
          rw [table]
          exact congrArg some same
        · obtain ⟨member, named⟩ := ih found
          exact ⟨List.mem_cons_of_mem first member, named⟩
      · cases found

end Search

/-- A table of this name is loaded. -/
def TableServer.InMemory (server : TableServer) (name : String) : Prop :=
  ∃ ref ∈ server.loaded, server.name ref = some name

/-- The connection starts with the first row of its table, and sees all of them. -/
def Connection.FromStart (ocb : Connection) : Prop := ocb.record = 0 ∧ ocb.filters = []

section Select

variable {server next : TableServer} {conn : ConnId}

theorem selectLoaded_position {curTbl : TableRef} {code : ErrorCode}
    (moved : (server.conns conn).table ≠ some curTbl)
    (done : selectLoaded server conn curTbl = .ok (next, code)) :
    next.conns conn = { server.conns conn with
      table := some curTbl
      filters := if (server.conns conn).table = none then (server.conns conn).filters else [] } := by
  unfold selectLoaded at done
  dsimp only at done
  rw [if_neg moved] at done
  split at done
  · cases done
  · cases done
    exact Function.update_self ..

theorem selectFile_position {outcomes : Outcomes} {name : String} {header : HeaderFile}
    (done : selectFile server conn outcomes name header = .ok (next, .ok)) :
    (next.conns conn).table = some server.fresh ∧ (next.conns conn).FromStart := by
  obtain ⟨entry, left, _, _, rfl⟩ := selectFile_ok done
  unfold enterTable TableServer.setConn Connection.FromStart
  simp only [Function.update_self, and_self]

/-- A connection that has changed to another table starts with its first row exactly when
that table was loaded from its file, or the connection was at the start already. -/
theorem select_starts_over_iff {outcomes : Outcomes} {nbytes : Nat} {name : String}
    (selected : server.handle conn outcomes (.tblselect nbytes name) = .ok (next, .ok))
    (moved : next.selected conn ≠ server.selected conn) :
    (∃ ref, next.selected conn = some ref ∧
      (server.InMemory name → ref ∈ server.loaded ∧ server.name ref = some name) ∧
      (¬ server.InMemory name → ref = server.fresh)) ∧
    ((next.conns conn).FromStart ↔
      (server.InMemory name → (server.conns conn).record = 0 ∧
        ((server.conns conn).table = none → (server.conns conn).filters = []))) := by
  have selected : (tblselect server conn outcomes nbytes name).map
    (TableServer.handle.keep conn) = .ok (next, .ok) := selected
  cases done : tblselect server conn outcomes nbytes name with
  | error fault =>
    rw [done] at selected
    cases selected
  | ok result =>
    obtain ⟨after, code⟩ := result
    rw [done] at selected
    cases selected
    have ocb : (after.setConn conn { after.conns conn with qerrno := .ok }).conns conn =
        { after.conns conn with qerrno := .ok } := Function.update_self ..
    unfold TableServer.selected at moved ⊢
    rw [ocb] at moved ⊢
    unfold tblselect at done
    split at done
    · cases done
    · split at done
      · cases done
      · next curTbl found =>
        obtain ⟨member, named⟩ := findTable_found found
        have present : server.InMemory name := ⟨curTbl, member, named⟩
        have changed : (server.conns conn).table ≠ some curTbl := by
          intro here
          unfold selectLoaded at done
          dsimp only at done
          rw [if_pos here] at done
          cases done
          exact moved rfl
        have position := selectLoaded_position changed done
        rw [position]
        refine ⟨⟨curTbl, rfl, fun _ => ⟨member, named⟩, fun absent => absurd present absent⟩, ?_⟩
        simp only [Connection.FromStart, ite_eq_right_iff, present, forall_const]
      · next absent =>
        have free := findTable_absent absent
        have absent : ¬ server.InMemory name := fun ⟨ref, member, named⟩ => free ref member named
        split at done
        · cases done
        · split at done
          · cases done
          · split at done
            · cases done
            · obtain ⟨table, start⟩ := selectFile_position done
              refine ⟨⟨server.fresh, table, fun present => absurd present absent, fun _ => rfl⟩, ?_⟩
              constructor
              · intro _ present
                exact absurd present absent
              · intro _
                exact start

end Select

/-- Two rows are inserted into the pairs by the client that then goes to the table another
client has created. -/
theorem select_keeps_position :
    ∃ server next, Run ServeStep blankTables
        [((0, .request allWell (createPairs "pairs" 3)), .ok), ((0, .insert 8 true), .ok),
          ((0, .insert 8 true), .ok), ((1, .request allWell (createPairs "others" 3)), .ok)]
        server ∧
      server.handle 0 allWell (.tblselect 7 "others") = .ok (next, .ok) ∧
      next.selected 0 ≠ server.selected 0 ∧ (next.conns 0).record = 1 ∧
      ¬ (next.conns 0).FromStart := by
  refine ⟨_, _, .cons rfl (.cons rfl (.cons rfl (.cons rfl .nil))), rfl, ?_, rfl, ?_⟩
  · exact fun same => absurd (Option.some.inj same) (by decide)
  · exact fun start => absurd start.1 (by decide)

/-- The same without rows. -/
theorem select_starts_over :
    ∃ server next : TableServer, server.handle 0 allWell (.tblselect 7 "others") = .ok (next, .ok) ∧
      server.InMemory "others" ∧ next.selected 0 ≠ server.selected 0 ∧
      (next.conns 0).FromStart := by
  obtain ⟨server, next, _, loaded, named, record, table, selected, moved⟩ :
      ∃ server next : TableServer, Run ServeStep blankTables
          [((0, .request allWell (createPairs "pairs" 3)), .ok),
            ((1, .request allWell (createPairs "others" 3)), .ok)] server ∧
        (1 : TableRef) ∈ server.loaded ∧ server.name 1 = some "others" ∧
        (server.conns 0).record = 0 ∧ (server.conns 0).table = some 0 ∧
        server.handle 0 allWell (.tblselect 7 "others") = .ok (next, .ok) ∧
        next.selected 0 ≠ server.selected 0 := by
    refine ⟨_, _, .cons rfl (.cons rfl .nil), List.mem_cons_self, rfl, rfl, rfl, rfl, ?_⟩
    exact fun same => absurd (Option.some.inj same) (by decide)
  have starts := (select_starts_over_iff selected moved).2.mpr fun _ => ⟨record, fun none => by
    rw [table] at none
    cases none⟩
  exact ⟨server, next, selected, ⟨1, loaded, named⟩, moved, starts⟩

end QNXStuff.QXBase
