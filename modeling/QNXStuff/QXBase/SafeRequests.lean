import QNXStuff.QXBase.SafeScans

/-! In a run of requests that are sound against a breach the breach does not happen. -/

namespace QNXStuff.QXBase.Requests

open Memory Execution

/-! ### What the server keeps -/

section Keeping

variable {breach : Breach} {manager : Manager} {conn : ConnId} {ocb : Connection}

/-- Other files and tables do not matter for the filters of a connection. -/
theorem FiltersSound.frame {other : Manager} (sound : FiltersSound manager ocb breach)
    (same : ∀ ref table, ocb.table = some ref → manager.tables[ref]? = some table →
      ∃ table', other.tables[ref]? = some table' ∧
        peek table'.desc rowLenAt = peek table.desc rowLenAt) :
    FiltersSound other ocb breach := by
  intro condition member
  refine ⟨(sound condition member).1, fun kind => ?_⟩
  obtain ⟨ref, table, selected, found, inside⟩ := (sound condition member).2 kind
  obtain ⟨table', found', rowLen⟩ := same ref table selected found
  exact ⟨ref, table', selected, found', by rw [rowLen]; exact inside⟩

theorem setConn_conns (other : ConnId) : (manager.setConn conn ocb).conns other =
    if other = conn then ocb else manager.conns other := by
  unfold Manager.setConn
  exact Function.update_apply ..

theorem Kept.setConn (kept : Kept breach manager)
    (ref : ∀ ref, ocb.table = some ref → ref < manager.tables.length)
    (filters : FiltersSound manager ocb breach) : Kept breach (manager.setConn conn ocb) := by
  refine ⟨kept.files, kept.tables, fun other => ?_, fun other => ?_⟩
  · rw [setConn_conns]
    by_cases here : other = conn
    · rw [if_pos here]
      exact ref
    · rw [if_neg here]
      exact kept.refs other
  · rw [setConn_conns]
    by_cases here : other = conn
    · rw [if_pos here]
      exact filters
    · rw [if_neg here]
      exact kept.filters other

/-- A connection keeps its table and some of its filters. -/
theorem Kept.setSame (kept : Kept breach manager)
    (table : ocb.table = (manager.conns conn).table)
    (filters : ∀ condition ∈ ocb.filters, condition ∈ (manager.conns conn).filters) :
    Kept breach (manager.setConn conn ocb) := by
  refine kept.setConn (fun ref selected => kept.refs conn ref (table ▸ selected)) ?_
  intro condition member
  obtain ⟨value, field⟩ := kept.filters conn condition (filters condition member)
  refine ⟨value, fun kind => ?_⟩
  obtain ⟨ref, found, selected, rest⟩ := field kind
  exact ⟨ref, found, table.trans selected, rest⟩

theorem Kept.setQerrno (kept : Kept breach manager) (code : ErrorCode) :
    Kept breach (manager.setConn conn { manager.conns conn with qerrno := code }) :=
  kept.setSame rfl fun _ member => member

theorem Kept.table_then {Value : Type} {post : Value → Prop} {ref : TableRef}
    {next : MemTable → Except Breach Value} (kept : Kept breach manager)
    (selected : (manager.conns conn).table = some ref)
    (rest : ∀ table, manager.tables[ref]? = some table → Headed table.desc →
      DescSound table.desc breach → Avoids breach post (next table)) :
    Avoids breach post (manager.table ref >>= next) := by
  have below := kept.refs conn ref selected
  have found : manager.tables[ref]? = some manager.tables[ref] := List.getElem?_eq_getElem below
  have sound := kept.tables _ (List.getElem_mem below)
  unfold Manager.table
  rw [found]
  exact rest _ found sound.1 (sound.1.sound sound.2)

theorem Headed.word_then {Value : Type} {post : Value → Prop} {block : List UInt8} {offset : Nat}
    {next : Nat → Except Breach Value} (headed : Headed block) (front : offset + 4 ≤ fieldsAt)
    (rest : Avoids breach post (next (Requests.peek block offset))) :
    Avoids breach post (wordAt block offset >>= next) :=
  Requests.word_then (fun _ => Nat.le_trans front (Nat.le_trans headed.1 headed.2)) fun _ => rest

theorem Kept.writeFile {name file : List UInt8} (kept : Kept breach manager) (headed : Headed file)
    (sound : DescSound (caption file) breach) :
    Kept breach { manager with files := Function.update manager.files name (some file) } := by
  refine ⟨fun other file' written => ?_, kept.tables, kept.refs, kept.filters⟩
  have written : Function.update manager.files name (some file) other = some file' := written
  by_cases here : other = name
  · subst here
    rw [Function.update_self] at written
    cases written
    exact ⟨headed, sound⟩
  · rw [Function.update_of_ne here] at written
    exact kept.files other file' written

theorem headSync_avoids {table : MemTable} (kept : Kept breach manager)
    (member : table ∈ manager.tables) :
    Avoids breach (fun synced => Kept breach synced ∧ synced.tables = manager.tables ∧
      synced.conns = manager.conns) (headSync manager table) := by
  obtain ⟨headed, sound⟩ := kept.tables table member
  unfold headSync
  refine headed.word_then (by decide) (Avoids.check (fun _ => headed.2) fun _ => ?_)
  cases table.hFile with
  | none => exact ⟨kept, rfl, rfl⟩
  | some name =>
    obtain ⟨headed', same⟩ := headed.append
      (((manager.files name).getD []).drop (Requests.peek table.desc sizeAt))
    refine ⟨kept.writeFile headed' ?_, rfl, rfl⟩
    show DescSound (caption (caption table.desc ++ _)) breach
    rw [same]
    exact sound

theorem leaveTable_avoids (kept : Kept breach manager) (circumstances : Circumstances) :
    Avoids breach (fun left => Kept breach left ∧ left.tables = manager.tables ∧
      left.conns = manager.conns) (leaveTable manager conn circumstances) := by
  unfold leaveTable
  cases selected : (manager.conns conn).table with
  | none => exact ⟨kept, rfl, rfl⟩
  | some old =>
    dsimp only
    refine Avoids.ite (fun _ => ?_) fun _ => ⟨kept, rfl, rfl⟩
    refine kept.table_then selected fun table found _ _ => ?_
    exact headSync_avoids kept (List.mem_of_getElem? found)

theorem Kept.enter {table : MemTable} (kept : Kept breach manager) (headed : Headed table.desc)
    (sound : DescSound (caption table.desc) breach) :
    Kept breach (enterTable manager conn table) := by
  have added : Kept breach { manager with tables := manager.tables ++ [table] } := by
    refine ⟨kept.files, fun other member => ?_, fun other ref selected => ?_, fun other => ?_⟩
    · rcases List.mem_append.mp member with old | new
      · exact kept.tables other old
      · rw [List.mem_singleton.mp new]
        exact ⟨headed, sound⟩
    · rw [List.length_append]
      exact Nat.lt_add_right _ (kept.refs other ref selected)
    · refine (kept.filters other).frame fun ref table' selected found => ?_
      refine ⟨table', ?_, rfl⟩
      rw [List.getElem?_append_left (kept.refs other ref selected)]
      exact found
  refine added.setConn (fun ref selected => ?_) nofun
  cases selected
  rw [List.length_append]
  exact Nat.lt_succ_self _

end Keeping

/-! ### The requests -/

section Handlers

variable {breach : Breach} {manager : Manager} {conn : ConnId} {circumstances : Circumstances}
  {message : Message}

/-- What an outcome of a handler leaves. -/
abbrev KeptBy (breach : Breach) {Rest : Type} (outcome : Manager × Rest) : Prop :=
  Kept breach outcome.1

theorem Kept.rows_sound (kept : Kept breach manager) {ref : TableRef} {table : MemTable}
    (selected : (manager.conns conn).table = some ref)
    (found : manager.tables[ref]? = some table) (sound : DescSound table.desc breach) :
    RowsSound breach (peek table.desc rowLenAt) (manager.conns conn).filters := by
  refine ⟨fun same => ?_, fun same condition member => ?_, fun same condition member => ?_⟩
  · subst same
    exact sound.2.1
  · obtain ⟨ref', table', selected', found', inside⟩ := (kept.filters conn condition member).2 same
    rw [selected] at selected'
    cases selected'
    rw [found] at found'
    cases found'
    exact inside
  · exact (kept.filters conn condition member).1 same

theorem DescSound.small {desc : List UInt8} (sound : DescSound desc breach) :
    breach = .page → peek desc rowLenAt * peek desc pageRowsAt < 2 ^ 32 := by
  intro same
  subst same
  exact sound.2

theorem DescSound.divides {desc : List UInt8} (sound : DescSound desc breach) :
    breach = .divide → peek desc pageRowsAt ≠ 0 := by
  intro same
  subst same
  exact sound

theorem qbaseRead_avoids (kept : Kept breach manager) (nbytes : UInt32) :
    Avoids breach (KeptBy breach) (qbaseRead manager conn circumstances nbytes) := by
  unfold qbaseRead
  dsimp only
  cases selected : (manager.conns conn).table with
  | none =>
    exact kept.setSame selected.symm fun _ member => member
  | some ref =>
    dsimp only
    refine kept.table_then selected fun table found headed sound => ?_
    refine headed.word_then (by decide) (Avoids.ite (fun _ => ?_) fun _ => ?_)
    · exact kept.setSame selected.symm fun _ member => member
    · refine headed.word_then (by decide) (Avoids.check sound.divides fun _ => ?_)
      refine headed.word_then (by decide) ?_
      refine Avoids.bind (readPages_avoids (kept.rows_sound selected found sound) sound.small _ _)
        fun ending _ => ?_
      exact kept.setSame selected.symm fun _ member => member

theorem Kept.countRow (kept : Kept breach manager) {ref : TableRef} {table : MemTable}
    (found : manager.tables[ref]? = some table) (index : Nat) :
    Kept breach { manager with
      tables := manager.tables.set ref { table with desc := Requests.countRow table.desc index } } := by
  obtain ⟨headed, sound⟩ := kept.tables table (List.mem_of_getElem? found)
  have large : fieldsAt ≤ table.desc.length := Nat.le_trans headed.1 headed.2
  have captioned : fieldsAt ≤ (caption table.desc).length := by
    rw [headed.caption_length]
    exact headed.1
  refine ⟨kept.files, fun other member => ?_, fun other ref' selected => ?_, fun other => ?_⟩
  · rcases List.mem_or_eq_of_mem_set member with old | rfl
    · exact kept.tables other old
    · refine ⟨headed.countRow, ?_⟩
      show DescSound (caption (Requests.countRow table.desc index)) breach
      rw [countRow_caption headed]
      exact sound.countRow captioned
  · rw [List.length_set]
    exact kept.refs other ref' selected
  · refine (kept.filters other).frame fun ref' table' _ found' => ?_
    by_cases same : ref' = ref
    · subst same
      rw [found] at found'
      cases found'
      refine ⟨_, List.getElem?_set_self ?_, countRow_peek large (by decide)⟩
      exact (List.getElem?_eq_some_iff.mp found).1
    · exact ⟨table', by rw [List.getElem?_set_ne (Ne.symm same)]; exact found', rfl⟩

theorem qbaseWrite_avoids (kept : Kept breach manager) (nbytes : UInt32) :
    Avoids breach (KeptBy breach) (qbaseWrite manager conn circumstances nbytes) := by
  unfold qbaseWrite
  dsimp only
  cases selected : (manager.conns conn).table with
  | none =>
    exact kept.setSame selected.symm fun _ member => member
  | some ref =>
    dsimp only
    refine kept.table_then selected fun table found headed sound => ?_
    refine headed.word_then (by decide) (Avoids.ite (fun _ => ?_) fun _ => ?_)
    · exact kept.setSame selected.symm fun _ member => member
    · refine headed.word_then (by decide) ?_
      refine @Avoids.bind _ _ _ breach (fun synced => Kept breach synced ∧
        synced.tables = manager.tables ∧ synced.conns = manager.conns) _ _ _ ?_ ?_
      · unfold syncFull
        refine Avoids.ite (fun _ => ?_) fun _ => ⟨kept, rfl, rfl⟩
        exact headSync_avoids kept (List.mem_of_getElem? found)
      · rintro synced ⟨kept', tables, conns⟩
        rw [← tables] at found
        rw [← conns] at selected
        refine headed.word_then (by decide) ?_
        have counted := kept'.countRow found (peek table.desc indexAt)
        refine Avoids.check (fun same => ?_) fun _ => Avoids.check (fun same => ?_) fun _ => ?_
        · subst same
          exact sound.2.1
        · subst same
          obtain ⟨positive, small⟩ := sound
          rw [Nat.mod_eq_of_lt small, Nat.mul_comm (peek table.desc rowLenAt)]
          refine Nat.mul_le_mul_right _ ?_
          split
          · exact positive
          · omega
        · refine Avoids.ite (fun _ => ?_) fun _ => ?_
          · exact counted.setSame (selected.symm) fun _ member => by
              show _ ∈ (synced.conns conn).filters
              rw [conns]
              exact member
          · exact counted.setSame (selected.symm) fun _ member => by
              show _ ∈ (synced.conns conn).filters
              rw [conns]
              exact member

/-- The descriptor that a selected table has. -/
theorem desc_of_found {ref : TableRef} {table : MemTable}
    (selected : (manager.conns conn).table = some ref)
    (found : manager.tables[ref]? = some table) : manager.desc conn = some table.desc := by
  unfold Manager.desc
  rw [selected, Option.bind_some, found]
  rfl

/-- What a scanning request needs for a row that it treats. -/
def Scan.RuleSound (scan : Scan) (desc : List UInt8) (row : Row) (breach : Breach) : Prop :=
  match scan with
  | .update message | .updcur message => Requests.RuleSound desc message row breach
  | .delete => True

theorem scanRow_avoids {desc : List UInt8} {filters : List Filter} {scan : Scan} {row : Row}
    (sound : DescSound desc breach) (rows : RowsSound breach (peek desc rowLenAt) filters)
    (length : row.length = peek desc rowLenAt)
    (rule : dataFilter filters row = .pass → scan.RuleSound desc row breach) :
    Avoids breach (fun ends => scan.single = true → ends = true)
      (scanRow desc (peek desc fieldNumAt) (peek desc rowLenAt) filters scan row) := by
  unfold scanRow
  refine Avoids.bind (dataFilterAt_avoids rows) fun verdict same => ?_
  cases verdict with
  | broken => exact fun _ => rfl
  | skip => exact id
  | pass =>
    have rule := rule same.symm
    cases scan with
    | delete => exact id
    | update message =>
      exact Avoids.map ((updateRowAt_avoids sound rfl length rule).mono fun _ _ => id)
    | updcur message =>
      exact Avoids.map ((updateRowAt_avoids sound rfl length rule).mono fun _ _ => id)

def Scan.Sound (scan : Scan) (manager : Manager) (conn : ConnId) (circumstances : Circumstances)
    (breach : Breach) : Prop :=
  match scan with
  | .update message => ScanSound manager conn circumstances message false breach
  | .updcur message => ScanSound manager conn circumstances message true breach
  | .delete => True

/-- The rule of a request is sound for the rows ahead. -/
theorem Scan.Sound.rule {scan : Scan} {desc : List UInt8} {row : Row}
    (sound : scan.Sound manager conn circumstances breach) (selected : manager.desc conn = some desc)
    (fits : scan.fits (peek desc fieldNumAt) (peek desc rowLenAt) = true)
    (ahead : row ∈ rowsAhead (peek desc rowLenAt) (peek desc pageRowsAt)
      (manager.conns conn).record circumstances.pages scan.single)
    (passes : dataFilter (manager.conns conn).filters row = .pass) :
    scan.RuleSound desc row breach := by
  cases scan with
  | delete => trivial
  | update message => exact sound desc selected (of_decide_eq_true fits) row ahead passes
  | updcur message => exact sound desc selected (of_decide_eq_true fits) row ahead passes

theorem rowOf_length (page : PageView) (rowLen rIndex : Nat) :
    (page.rowOf rowLen rIndex).length = rowLen :=
  readBytes_length ..

theorem firstRow_length {rowLen pageRows rIndex : Nat} {pages : List PageView} {row : Row}
    (found : firstRow rowLen pageRows rIndex pages = some row) : row.length = rowLen := by
  induction pages generalizing rIndex with
  | nil => cases found
  | cons page rest ih =>
    unfold firstRow at found
    split at found
    · exact ih found
    · cases found
      exact rowOf_length ..

theorem qbaseScan_avoids (kept : Kept breach manager) {scan : Scan}
    (sound : scan.Sound manager conn circumstances breach) :
    Avoids breach (fun _ => True) (qbaseScan manager conn circumstances scan) := by
  unfold qbaseScan
  dsimp only
  cases selected : (manager.conns conn).table with
  | none => trivial
  | some ref =>
    dsimp only
    refine kept.table_then selected fun table found headed desc => ?_
    have rows := kept.rows_sound selected found desc
    refine headed.word_then (by decide) (headed.word_then (by decide) ?_)
    refine Avoids.ite (fun fits => ?_) fun _ => trivial
    have rule (row : Row) (ahead : row ∈ _) := sound.rule (desc_of_found selected found) fits ahead
    refine headed.word_then (by decide) (Avoids.check (fun same _ => desc.divides same) fun _ => ?_)
    refine headed.word_then (by decide) ?_
    cases single : scan.single with
    | true =>
      rw [if_pos rfl]
      refine scanPages_single desc.small _ fun row first => ?_
      have ahead : row ∈ rowsAhead (peek table.desc rowLenAt) (peek table.desc pageRowsAt)
          (manager.conns conn).record circumstances.pages scan.single := by
        rw [rowsAhead, if_pos single, first]
        exact List.mem_singleton_self row
      refine (scanRow_avoids desc rows (firstRow_length first) (rule row ahead)).mono ?_
      exact fun ends stops => stops single
    | false =>
      rw [if_neg Bool.false_ne_true]
      refine scanPages_avoids desc.small _ fun page member place below => ?_
      have ahead : page.rowOf (peek table.desc rowLenAt) place ∈ rowsAhead
          (peek table.desc rowLenAt) (peek table.desc pageRowsAt) (manager.conns conn).record
          circumstances.pages scan.single := by
        rw [rowsAhead, if_neg (ne_true_of_eq_false single)]
        exact List.mem_flatMap.mpr ⟨page, member, List.mem_map_of_mem (List.mem_range.mpr below)⟩
      exact (scanRow_avoids desc rows (rowOf_length ..) (rule _ ahead)).mono fun _ _ => trivial

/-- A comparison reads no more of its field than the server may use. -/
theorem reads_le_span {field : FieldDesc} {cmpFunc : CmpFunc}
    (entry : ffuncs[field.type]? = some cmpFunc) (message : Message) :
    reads (makeFilter message field cmpFunc) ≤ span field := by
  obtain ⟨type, length, offset⟩ := field
  have whole : length ≤ span ⟨type, length, offset⟩ :=
    Nat.le_trans (Nat.le_max_left ..) (Nat.le_max_left ..)
  have width := width_le_span ⟨type, length, offset⟩
  rcases type with _ | _ | _ | _ | _ | _ | _ | _ | type
  · cases entry
    exact width
  · cases entry
    exact width
  · cases entry
    exact width
  · cases entry
    exact width
  · cases entry
    exact width
  · cases entry
    have word : 4 ≤ span ⟨5, length, offset⟩ := Nat.le_max_right ..
    unfold reads makeFilter
    dsimp only
    split <;> omega
  · cases entry
    unfold reads makeFilter
    dsimp only
    split <;> omega
  · cases entry
    unfold reads makeFilter
    dsimp only
    split
    · exact whole
    · split <;> omega
  · cases entry

theorem fltrdefine_avoids (kept : Kept breach manager)
    (sound : DefineSound manager conn message breach) :
    Avoids breach (KeptBy breach) (fltrdefine manager conn message) := by
  unfold fltrdefine
  dsimp only
  cases selected : (manager.conns conn).table with
  | none => exact kept
  | some ref =>
    dsimp only
    refine Avoids.ite (fun _ => kept) fun enough => ?_
    obtain ⟨arrived, values⟩ := sound (by rw [selected]; nofun) (Nat.le_of_not_lt enough)
    refine Avoids.check arrived fun _ => ?_
    refine kept.table_then selected fun table found headed desc => ?_
    refine headed.word_then (by decide) (Avoids.ite (fun _ => kept) fun inFields => ?_)
    have below := Nat.lt_of_not_le inFields
    refine field_then (fun same => ?_) ?_
    · subst same
      have fields : fieldsAt + 12 * peek table.desc fieldNumAt ≤ table.desc.length := desc
      omega
    · cases entry : ffuncs[(peekField table.desc (peek message.received 4)).type]? with
      | none =>
        intro same
        subst same
        have type := desc.2 _ below
        have behind := List.getElem?_eq_none_iff.mp entry
        exact absurd type (Nat.not_lt.mpr behind)
      | some cmpFunc =>
        refine kept.setConn (fun other same => ?_) fun condition member => ?_
        · exact kept.refs conn other (selected.trans same)
        · rcases List.mem_cons.mp member with rfl | old
          · refine ⟨fun same => values same _ ?_, fun same => ⟨ref, table, rfl, found, ?_⟩⟩
            · unfold Manager.defined
              rw [desc_of_found selected found]
              simp only [Option.mem_def, Option.bind_eq_bind, Option.bind_some, entry]
              rfl
            · subst same
              have fits := desc.2.2 _ below
              have less := reads_le_span entry message
              have start : (makeFilter message (peekField table.desc (peek message.received 4))
                cmpFunc).field = (peekField table.desc (peek message.received 4)).offset := rfl
              omega
          · obtain ⟨value, field⟩ := kept.filters conn condition old
            refine ⟨value, fun same => ?_⟩
            obtain ⟨ref', table', selected', rest⟩ := field same
            exact ⟨ref', table', selected.symm.trans selected', rest⟩

theorem Kept.seekTo (kept : Kept breach manager) (index record : Nat) :
    Kept breach (seekTo manager conn index record).1 := by
  unfold Requests.seekTo
  dsimp only
  split
  · exact kept.setSame rfl fun _ member => member
  · exact kept.setSame rfl fun _ member => member

theorem seek_avoids (kept : Kept breach manager) (sound : SeekSound manager conn message breach) :
    Avoids breach (KeptBy breach) (seek manager conn message) := by
  unfold seek
  cases selected : (manager.conns conn).table with
  | none => exact fun same => sound.1 same.symm selected
  | some ref =>
    dsimp only
    refine kept.table_then selected fun table found headed desc => ?_
    refine Avoids.ite (fun four => ?_) fun _ => kept
    refine messageWord_then (fun same => sound.2 same four) (headed.word_then (by decide) ?_)
    exact kept.seekTo _ _

/-! ### Selecting and creating tables -/

theorem selectLoaded_avoids (kept : Kept breach manager) {curTbl : TableRef}
    (there : curTbl < manager.tables.length) :
    Avoids breach (KeptBy breach) (selectLoaded manager conn circumstances curTbl) := by
  unfold selectLoaded
  dsimp only
  refine Avoids.ite (fun _ => kept) fun _ => ?_
  refine Avoids.bind (leaveTable_avoids kept circumstances) ?_
  rintro left ⟨kept', tables, conns⟩
  refine kept'.setConn (fun ref same => ?_) fun condition member => ?_
  · cases same
    rw [tables]
    exact there
  · dsimp only at member
    split at member
    · next none =>
      obtain ⟨value, field⟩ := kept.filters conn condition member
      refine ⟨value, fun same => ?_⟩
      obtain ⟨ref, _, selected, _⟩ := field same
      rw [none] at selected
      cases selected
    · cases member

theorem selectFile_avoids (kept : Kept breach manager) {name header : List UInt8}
    (there : manager.files name = some header) :
    Avoids breach (KeptBy breach) (selectFile manager conn circumstances name header) := by
  obtain ⟨headed, captioned⟩ := kept.files name header there
  have desc := headed.sound captioned
  unfold selectFile
  refine Avoids.ite (fun _ => kept) fun _ => ?_
  refine Avoids.check (fun _ => Nat.le_trans (by decide) (Nat.le_trans headed.1 headed.2)) fun _ => ?_
  refine @Avoids.bind _ _ _ breach (fun _ => True) _ _ _ ?_ fun _ _ => ?_
  · unfold fName
    cases named : peekName header with
    | none =>
      intro same
      subst same
      exact desc named
    | some name => trivial
  · refine headed.word_then (by decide) (headed.word_then (by decide) (headed.word_then (by decide) ?_))
    refine Avoids.check desc.divides fun _ => ?_
    refine Avoids.bind (leaveTable_avoids kept circumstances) ?_
    rintro left ⟨kept', _⟩
    exact kept'.enter headed captioned

theorem find_there {name : List UInt8} {curTbl : TableRef}
    (found : manager.find circumstances name = some curTbl) : curTbl < manager.tables.length := by
  unfold Manager.find at found
  obtain ⟨_, named⟩ := Option.filter_eq_some_iff.mp found
  by_contra behind
  rw [List.getElem?_eq_none (Nat.le_of_not_lt behind)] at named
  cases named

theorem tblselect_avoids (kept : Kept breach manager)
    (sound : SelectSound manager circumstances message breach) :
    Avoids breach (KeptBy breach) (tblselect manager conn circumstances message) := by
  unfold tblselect
  dsimp only
  refine Avoids.ite (fun _ => kept) fun short => ?_
  obtain ⟨complete, sound⟩ := sound short
  cases named : cString message.received with
  | none => exact fun same => complete same.symm named
  | some name =>
    have sound := sound name named
    dsimp only
    cases found : manager.find circumstances name with
    | some curTbl => exact selectLoaded_avoids kept (find_there found)
    | none =>
      obtain ⟨ends, arrived⟩ := sound found
      refine Avoids.check ends fun _ => Avoids.check arrived fun _ => ?_
      cases there : manager.files name with
      | none => exact kept
      | some header =>
        dsimp only
        refine Avoids.ite (fun _ => ?_) fun _ => kept
        exact selectFile_avoids kept there

theorem tblcreate_avoids (kept : Kept breach manager)
    (sound : CreateSound manager circumstances message breach) :
    Avoids breach (KeptBy breach) (tblcreate manager conn circumstances message) := by
  unfold tblcreate
  refine Avoids.ite (fun _ => kept) fun enough => ?_
  obtain ⟨arrived, complete, sound⟩ := sound (Nat.le_of_not_lt enough)
  refine Avoids.check arrived fun inside => ?_
  unfold fName
  cases named : peekName message.received with
  | none => exact fun same => complete same.symm named
  | some name =>
    have sound := sound name named
    refine Avoids.ite (fun _ => kept) fun missing => ?_
    obtain ⟨whole, head, desc⟩ := sound (Bool.eq_false_iff.mpr missing)
    refine Avoids.check whole fun all => ?_
    refine word_then (fun same => ?_) fun large => ?_
    · rw [List.length_take, Nat.min_eq_left all]
      exact head same
    · rw [List.length_take, Nat.min_eq_left all] at large
      have large : fieldsAt ≤ peek message.received sizeAt := large
      have headed : Headed message.received := ⟨large, all⟩
      refine Avoids.ite (fun _ => kept) fun locks => ?_
      rw [peek_take large] at locks
      have desc := desc (Nat.le_of_not_lt locks)
      obtain ⟨headed', same⟩ := headed.append []
      rw [List.append_nil] at headed' same
      have created : Kept breach { manager with
          files := if circumstances.creates then
            Function.update manager.files name (some (caption message.received))
          else manager.files } := by
        cases circumstances.creates with
        | true => exact kept.writeFile headed' (same.symm ▸ desc)
        | false => exact kept
      refine Avoids.bind (leaveTable_avoids created circumstances) ?_
      rintro left ⟨kept', _⟩
      exact kept'.enter headed' (same.symm ▸ desc)

theorem tblflush_avoids (kept : Kept breach manager) :
    Avoids breach (KeptBy breach) (tblflush manager conn) := by
  unfold tblflush
  cases selected : (manager.conns conn).table with
  | none => exact kept
  | some ref =>
    dsimp only
    refine kept.table_then selected fun table found _ _ => ?_
    refine Avoids.bind (headSync_avoids kept (List.mem_of_getElem? found)) ?_
    rintro synced ⟨kept', _⟩
    exact kept'

theorem tblcapslen_avoids (kept : Kept breach manager) :
    Avoids breach (fun _ => True) (tblcapslen manager conn) := by
  unfold tblcapslen
  cases selected : (manager.conns conn).table with
  | none => trivial
  | some ref =>
    dsimp only
    refine kept.table_then selected fun table found headed _ => ?_
    exact headed.word_then (by decide) trivial

theorem tblcaps_avoids (kept : Kept breach manager) :
    Avoids breach (fun _ => True) (tblcaps manager conn) := by
  unfold tblcaps
  cases selected : (manager.conns conn).table with
  | none => trivial
  | some ref =>
    dsimp only
    refine kept.table_then selected fun table found headed desc => ?_
    refine headed.word_then (by decide) (Avoids.check (fun _ => headed.2) fun _ => ?_)
    refine Avoids.check (fun same => ?_) fun _ => trivial
    subst same
    exact desc

/-! ### One step and a run -/

end Handlers

section Runs

variable {breach : Breach} {manager : Manager} {input : Input}

/-- A handler that only changes the server. -/
theorem plain_avoids {source : Except Breach (Manager × ErrorCode)}
    (avoids : Avoids breach (KeptBy breach) source) :
    Avoids breach (KeptBy breach) (command.plain source) :=
  Avoids.map avoids

theorem command_avoids (kept : Kept breach manager) {conn : ConnId} {circumstances : Circumstances}
    {dcmd : Command} {message : Message}
    (sound : Sound manager ⟨conn, circumstances, .devctl dcmd message⟩ breach) :
    Avoids breach (KeptBy breach) (command manager conn circumstances message dcmd) := by
  have scans (scan : Scan) (sound : scan.Sound manager conn circumstances breach) :
      Avoids breach (KeptBy breach) (command.scan manager conn circumstances scan) :=
    Avoids.map ((qbaseScan_avoids kept sound).mono fun _ _ => kept)
  cases dcmd with
  | tblselect => exact plain_avoids (tblselect_avoids kept sound)
  | tblcreate => exact plain_avoids (tblcreate_avoids kept sound)
  | error => exact kept
  | tblflush => exact plain_avoids (tblflush_avoids kept)
  | info =>
    unfold command
    exact Avoids.ite (fun _ => kept) fun _ => kept
  | fetchrst =>
    unfold command
    exact Avoids.ite (fun _ => kept) fun _ => kept.setSame rfl fun _ member => member
  | tblcapslen => exact Avoids.map ((tblcapslen_avoids kept).mono fun _ _ => kept)
  | tblcaps => exact Avoids.map ((tblcaps_avoids kept).mono fun _ _ => kept)
  | fltrdelete => exact kept.setSame rfl nofun
  | fltrpop => exact kept.setSame rfl fun _ member => List.mem_of_mem_tail member
  | fltrdefine => exact plain_avoids (fltrdefine_avoids kept sound)
  | update => exact scans (.update message) sound
  | updcur => exact scans (.updcur message) sound
  | delete => exact scans .delete trivial
  | seek => exact plain_avoids (seek_avoids kept sound)
  | unknown => exact kept

/-- A sound request avoids the breach and keeps what the server relies on. -/
theorem handle_avoids (kept : Kept breach manager) (sound : Sound manager input breach) :
    Avoids breach (KeptBy breach) (manager.handle input) := by
  obtain ⟨conn, circumstances, request⟩ := input
  cases request with
  | read nbytes => exact qbaseRead_avoids kept nbytes
  | write nbytes => exact qbaseWrite_avoids kept nbytes
  | devctl dcmd message =>
    exact Avoids.map ((command_avoids kept sound).mono fun done kept' => kept'.setQerrno _)
  | close =>
    refine Avoids.bind (leaveTable_avoids kept circumstances) ?_
    rintro left ⟨kept', _⟩
    exact kept'.setConn nofun nofun

theorem Manager.Start.kept (start : manager.Start)
    (files : ∀ name file, manager.files name = some file →
      Headed file ∧ DescSound (caption file) breach) : Kept breach manager := by
  have conns (conn : ConnId) : manager.conns conn = Connection.calloc := by rw [start.conns]
  refine ⟨files, ?_, fun conn ref selected => ?_, fun conn => ?_⟩
  · rw [start.tables]
    exact nofun
  · rw [conns] at selected
    cases selected
  · rw [conns]
    exact nofun

theorem run_keeps {final : Manager} {labels : List (Input × Answer)} (kept : Kept breach manager)
    (run : Run (Under ManagerStep fun manager label => Sound manager label.1 breach) manager labels
      final) : Kept breach final := by
  refine run.invariant kept fun state label next kept step => ?_
  exact (handle_avoids kept step.2).holds step.1

end Runs

/-! ### What no run does -/

/-- The descriptors and filters of the server stay within their bounds. -/
structure InRange (manager : Manager) : Prop where
  fields : ∀ table ∈ manager.tables, FieldsInside table.desc
  types : ∀ table ∈ manager.tables, ∀ number < peek table.desc fieldNumAt,
    (peekField table.desc number).type < ffuncs.length
  inRow : ∀ table ∈ manager.tables, ∀ number < peek table.desc fieldNumAt,
    (peekField table.desc number).offset + (peekField table.desc number).length ≤
      peek table.desc rowLenAt
  values : ∀ conn, ∀ condition ∈ (manager.conns conn).filters,
    reads condition ≤ condition.value.length

/-- The breaches other than a division. -/
def accesses : List Breach :=
  [.noTable, .message, .name, .descriptor, .comparator, .field, .value, .page]

theorem Kept.inRange {manager : Manager} (kept : ∀ breach ∈ accesses, Kept breach manager) :
    InRange manager := by
  have sound (breach : Breach) (access : breach ∈ accesses) (table : MemTable)
      (member : table ∈ manager.tables) : DescSound table.desc breach := by
    obtain ⟨headed, sound⟩ := (kept breach access).tables table member
    exact headed.sound sound
  refine ⟨fun table member => ?_, fun table member number below => ?_,
    fun table member number below => ?_, fun conn condition member => ?_⟩
  · exact sound .descriptor (by decide) table member
  · exact (sound .comparator (by decide) table member).2 number below
  · have inside := (sound .field (by decide) table member).2.2 number below
    have whole : (peekField table.desc number).length ≤ span (peekField table.desc number) :=
      Nat.le_trans (Nat.le_max_left ..) (Nat.le_max_left ..)
    omega
  · exact ((kept .value (by decide)).filters conn condition member).1 rfl

/-- In a run of requests that ask for quotients that exist, no request divides by zero or has an
undefined quotient. -/
theorem quotients_are_defined {manager final : Manager} {labels : List (Input × Answer)}
    (start : manager.Start)
    (files : ∀ name file, manager.files name = some file →
      Headed file ∧ DescSound (caption file) .divide)
    (run : Run (Under ManagerStep fun manager label => Sound manager label.1 .divide) manager labels
      final) (input : Input) (sound : Sound final input .divide) :
    final.handle input ≠ .error .divide :=
  (handle_avoids (run_keeps (start.kept files) run) sound).ne

/-- In a run of requests that are sound against every access the server stays in range, and the
next request makes none that is out of range unless it is not sound against it. -/
theorem accesses_stay_in_range {manager final : Manager} {labels : List (Input × Answer)}
    (start : manager.Start)
    (files : ∀ name file, manager.files name = some file →
      Headed file ∧ ∀ breach ∈ accesses, DescSound (caption file) breach)
    (run : Run (Under ManagerStep fun manager label =>
      ∀ breach ∈ accesses, Sound manager label.1 breach) manager labels final) :
    InRange final ∧ ∀ input, ∀ breach ∈ accesses, Sound final input breach →
      final.handle input ≠ .error breach := by
  have kept (breach : Breach) (access : breach ∈ accesses) : Kept breach final := by
    refine run_keeps (start.kept fun name file found => ?_) (run.mono fun state label next step => ?_)
    · exact ⟨(files name file found).1, (files name file found).2 breach access⟩
    · exact ⟨step.1, step.2 breach access⟩
  refine ⟨Kept.inRange kept, fun input breach access sound => ?_⟩
  exact (handle_avoids (kept breach access) sound).ne

/-! ### Runs -/

/-- A server that has just been started. -/
def fresh : Manager := ⟨[], fun _ => none, fun _ => Connection.calloc⟩

/-- The descriptor of a table with one field in a row of four bytes. -/
def oneField (type pageRows : Nat) : List UInt8 :=
  bytesOf 4 1 ++ bytesOf 4 80 ++ 97 :: List.replicate 35 0 ++ bytesOf 4 1 ++ bytesOf 4 4 ++
    List.replicate 8 0 ++ bytesOf 4 pageRows ++ bytesOf 4 3 ++ bytesOf 4 type ++ bytesOf 4 4 ++
    bytesOf 4 0

/-- A request of the first connection, with one page of a row in the table. -/
def ask (request : Request) : Input where
  conn := 0
  circumstances :=
    { found := none, last := false, opens := true, creates := true, lastRow := 0, arrives := true
      pages := [⟨1, fun position => if position = 0 then 7 else 0⟩] }
  request := request

def send (dcmd : Command) (data : List UInt8) : Input :=
  ask (.devctl dcmd ⟨UInt32.ofNat data.length, data⟩)

def divideBy (value : Nat) : Input :=
  send .update (bytesOf 4 9 ++ [UInt8.ofNat actDiv] ++ bytesOf 4 value)

def filterFor (value : Nat) : Input :=
  send .fltrdefine (bytesOf 4 cmpEq ++ List.replicate 24 0 ++ bytesOf 4 value)

theorem fresh_start : fresh.Start := ⟨rfl, rfl⟩

/-- A table with whole pages and a divisor that is not zero. -/
theorem divided_by_two : ∃ labels final, Run ManagerStep fresh labels final ∧
    final.tables.length = 1 ∧ final.handle (divideBy 2) ≠ .error .divide := by
  obtain ⟨labels, final, run, seen⟩ := replay_reaches
    (guarded Manager.handle fun manager input => Sound manager input .divide) fresh
    [send .tblcreate (oneField typeUint 4), ask (.write 4)]
    (fun final _ => (final.tables.length, decide (Sound final (divideBy 2) .divide))) (1, true)
    (by decide +kernel)
  have run := run_guarded run
  obtain ⟨tables, sound⟩ := Prod.mk.inj seen
  exact ⟨labels, final, run.mono fun _ _ _ step => step.1, tables,
    quotients_are_defined fresh_start nofun run (divideBy 2) (of_decide_eq_true sound)⟩

/-- The first fetch from a table whose pages have no rows divides by zero. -/
theorem empty_pages_divide : ¬ ∀ labels final, Run ManagerStep fresh labels final →
    ∀ input, final.handle input ≠ .error .divide := by
  intro claimed
  obtain ⟨labels, final, run, seen⟩ := replay_reaches Manager.handle fresh
    [send .tblcreate (oneField typeUint 0)]
    (fun final _ => match final.handle (ask (.read 4)) with
      | .error breach => some breach
      | .ok _ => none) (some .divide) (by decide +kernel)
  have divides := claimed labels final run (ask (.read 4))
  cases outcome : final.handle (ask (.read 4)) with
  | ok answer =>
    rw [outcome] at seen
    cases seen
  | error breach =>
    rw [outcome] at seen
    cases seen
    exact divides outcome

/-- A table, a filter for it, a row and a scan. -/
theorem filtered_row_is_divided : ∃ labels final, Run ManagerStep fresh labels final ∧
    (final.conns 0).filters.length = 1 ∧ InRange final ∧
    ∀ breach ∈ accesses, final.handle (divideBy 2) ≠ .error breach := by
  obtain ⟨labels, final, run, seen⟩ := replay_reaches
    (guarded Manager.handle fun manager input => ∀ breach ∈ accesses, Sound manager input breach)
    fresh [send .tblcreate (oneField typeUint 4), filterFor 7, ask (.write 4), ask (.read 4)]
    (fun final _ => ((final.conns 0).filters.length,
      decide (∀ breach ∈ accesses, Sound final (divideBy 2) breach))) (1, true) (by decide +kernel)
  have run := run_guarded run
  obtain ⟨filters, sound⟩ := Prod.mk.inj seen
  obtain ⟨inRange, safe⟩ := accesses_stay_in_range fresh_start nofun run
  exact ⟨labels, final, run.mono fun _ _ _ step => step.1, filters, inRange,
    fun breach access => safe (divideBy 2) breach access (of_decide_eq_true sound breach access)⟩

/-- A filter for a field of a ninth type takes a function behind the eight. -/
theorem ninth_type_is_compared : ¬ ∀ labels final, Run ManagerStep fresh labels final →
    InRange final ∧ ∀ input, ∀ breach ∈ accesses, final.handle input ≠ .error breach := by
  intro claimed
  obtain ⟨labels, final, run, seen⟩ := replay_reaches Manager.handle fresh
    [send .tblcreate (oneField 8 4)]
    (fun final _ => match final.handle (filterFor 7) with
      | .error breach => some breach
      | .ok _ => none) (some .comparator) (by decide +kernel)
  have safe := (claimed labels final run).2 (filterFor 7) .comparator (by decide)
  cases outcome : final.handle (filterFor 7) with
  | ok answer =>
    rw [outcome] at seen
    cases seen
  | error breach =>
    rw [outcome] at seen
    cases seen
    exact safe outcome

end QNXStuff.QXBase.Requests
