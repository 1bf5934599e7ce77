import QNXStuff.GetConf.Realms

/-! The configuration file that the filter and the logger of the billing read: what each makes of it,
and on what they agree. -/

namespace QNXStuff.QXBilling

open Execution Registry
open QXMail (ascii stricmp)
open GetConf (Word Line Conf TextFile opensText opensText_opened)
open GetConf.Setup (Table worded settingTurn eachString fileLines givenTo settings_read)

/-- A loop has no turns left. -/
inductive ParseFault where
  | spent

/-- What `qxc_parse_config` sets. -/
structure FilterSettings where
  ifname : Word
  devname : Word
  logPkts : Int32
  maxTe : Int32
  maxNics : Int32

/-- What `qxl_parse_config` sets. -/
structure LoggerSettings where
  device : Word
  logpkts : Int32
  nTblRows : Int32
  maxTaxes : Int32
  maxTaxDetails : Int32
  maxTaxTimes : Int32
  maxAccounts : Int32
  maxNICs : Int32
  suspendTime : Int32
  dataUnits : Float

def FilterSettings.default : FilterSettings where
  ifname := ascii "en0"
  devname := ascii "/dev/qxbil"
  logPkts := 1000
  maxTe := 10
  maxNics := 10

def LoggerSettings.default : LoggerSettings where
  device := ascii "/dev/qxbil"
  logpkts := 1000
  nTblRows := 1000
  maxTaxes := 10
  maxTaxDetails := 100
  maxTaxTimes := 10
  maxAccounts := 1000
  maxNICs := 1000
  suspendTime := 1000
  dataUnits := 1000000

section Parsing

variable (atoi : Word → Int32) (turns : Nat)

def qxcDirectives : Table FilterSettings :=
  [("INTERFACE", worded fun word settings => { settings with ifname := word }),
    ("DEVICE", worded fun word settings => { settings with devname := word }),
    ("LOGPKTS", worded fun word settings => { settings with logPkts := atoi word }),
    ("MAXTAXEXEMPT", worded fun word settings => { settings with maxTe := atoi word }),
    ("MAXNICS", worded fun word settings => { settings with maxNics := atoi word })]

/-- The interface is only printed. -/
def qxlDirectives : Table LoggerSettings :=
  [("INTERFACE", worded fun _ settings => settings),
    ("DEVICE", worded fun word settings => { settings with device := word }),
    ("LOGPKTS", worded fun word settings => { settings with logpkts := atoi word }),
    ("LOGROWS", worded fun word settings => { settings with nTblRows := atoi word }),
    ("MAXTAXES", worded fun word settings => { settings with maxTaxes := atoi word }),
    ("MAXTAXDETAILS", worded fun word settings => { settings with maxTaxDetails := atoi word }),
    ("MAXTAXTIMES", worded fun word settings => { settings with maxTaxTimes := atoi word }),
    ("MAXACCOUNTS", worded fun word settings => { settings with maxAccounts := atoi word }),
    ("MAXNICS", worded fun word settings => { settings with maxNICs := atoi word }),
    ("SUSPENDTIME", worded fun word settings => { settings with suspendTime := atoi word }),
    ("DATAUNITS", worded fun word settings =>
      { settings with dataUnits := Float.ofInt (atoi word).toInt })]

def qxcParseConfig : GetConf.Setup ParseFault FilterSettings :=
  eachString .spent (settingTurn (qxcDirectives atoi)) Except.ok turns .default

/-- `qxl_parse_config`, up to the allocation of its tables -/
def qxlParseConfig : GetConf.Setup ParseFault LoggerSettings :=
  eachString .spent (settingTurn (qxlDirectives atoi)) Except.ok turns .default

end Parsing

section Agreement

variable {atoi : Word → Int32}

/-- Each part of the filter's settings that the logger has too is set by one directive. -/
theorem filter_others {entry : String × (Option Word → FilterSettings → FilterSettings)}
    (inside : entry ∈ qxcDirectives atoi) (word : Option Word) (settings : FilterSettings) :
    (entry.1 ≠ "DEVICE" → (entry.2 word settings).devname = settings.devname) ∧
      (entry.1 ≠ "LOGPKTS" → (entry.2 word settings).logPkts = settings.logPkts) ∧
      (entry.1 ≠ "MAXNICS" → (entry.2 word settings).maxNics = settings.maxNics) := by
  simp only [qxcDirectives, List.mem_cons, List.not_mem_nil, or_false] at inside
  rcases inside with rfl | rfl | rfl | rfl | rfl <;> cases word <;> simp [worded]

theorem logger_others {entry : String × (Option Word → LoggerSettings → LoggerSettings)}
    (inside : entry ∈ qxlDirectives atoi) (word : Option Word) (settings : LoggerSettings) :
    (entry.1 ≠ "DEVICE" → (entry.2 word settings).device = settings.device) ∧
      (entry.1 ≠ "LOGPKTS" → (entry.2 word settings).logpkts = settings.logpkts) ∧
      (entry.1 ≠ "MAXNICS" → (entry.2 word settings).maxNICs = settings.maxNICs) := by
  simp only [qxlDirectives, List.mem_cons, List.not_mem_nil, or_false] at inside
  rcases inside with rfl | rfl | rfl | rfl | rfl | rfl | rfl | rfl | rfl | rfl | rfl <;>
    cases word <;> simp [worded]

theorem filter_reads (atoi : Word → Int32) (lines : List Line) :
    ((lines.foldl (qxcDirectives atoi).apply .default).devname =
      ((latest (givenTo "DEVICE") lines).map id).getD (ascii "/dev/qxbil")) ∧
    ((lines.foldl (qxcDirectives atoi).apply .default).logPkts =
      ((latest (givenTo "LOGPKTS") lines).map atoi).getD 1000) ∧
    ((lines.foldl (qxcDirectives atoi).apply .default).maxNics =
      ((latest (givenTo "MAXNICS") lines).map atoi).getD 10) := by
  refine ⟨?_, ?_, ?_⟩
  · have here : (qxcDirectives atoi).directive (ascii "DEVICE") =
        some (worded fun word settings => { settings with devname := word }) := by
      simp +decide [qxcDirectives, Table.directive_cons]
    exact Table.part_latest FilterSettings.devname here (fun _ _ => rfl)
      (fun _ inside other word settings => (filter_others inside word settings).1 other) _ lines
  · have here : (qxcDirectives atoi).directive (ascii "LOGPKTS") =
        some (worded fun word settings => { settings with logPkts := atoi word }) := by
      simp +decide [qxcDirectives, Table.directive_cons]
    exact Table.part_latest FilterSettings.logPkts here (fun _ _ => rfl)
      (fun _ inside other word settings => (filter_others inside word settings).2.1 other) _ lines
  · have here : (qxcDirectives atoi).directive (ascii "MAXNICS") =
        some (worded fun word settings => { settings with maxNics := atoi word }) := by
      simp +decide [qxcDirectives, Table.directive_cons]
    exact Table.part_latest FilterSettings.maxNics here (fun _ _ => rfl)
      (fun _ inside other word settings => (filter_others inside word settings).2.2 other) _ lines

theorem logger_reads (atoi : Word → Int32) (lines : List Line) :
    ((lines.foldl (qxlDirectives atoi).apply .default).device =
      ((latest (givenTo "DEVICE") lines).map id).getD (ascii "/dev/qxbil")) ∧
    ((lines.foldl (qxlDirectives atoi).apply .default).logpkts =
      ((latest (givenTo "LOGPKTS") lines).map atoi).getD 1000) ∧
    ((lines.foldl (qxlDirectives atoi).apply .default).maxNICs =
      ((latest (givenTo "MAXNICS") lines).map atoi).getD 1000) := by
  refine ⟨?_, ?_, ?_⟩
  · have here : (qxlDirectives atoi).directive (ascii "DEVICE") =
        some (worded fun word settings => { settings with device := word }) := by
      simp +decide [qxlDirectives, Table.directive_cons]
    exact Table.part_latest LoggerSettings.device here (fun _ _ => rfl)
      (fun _ inside other word settings => (logger_others inside word settings).1 other) _ lines
  · have here : (qxlDirectives atoi).directive (ascii "LOGPKTS") =
        some (worded fun word settings => { settings with logpkts := atoi word }) := by
      simp +decide [qxlDirectives, Table.directive_cons]
    exact Table.part_latest LoggerSettings.logpkts here (fun _ _ => rfl)
      (fun _ inside other word settings => (logger_others inside word settings).2.1 other) _ lines
  · have here : (qxlDirectives atoi).directive (ascii "MAXNICS") =
        some (worded fun word settings => { settings with maxNICs := atoi word }) := by
      simp +decide [qxlDirectives, Table.directive_cons]
    exact Table.part_latest LoggerSettings.maxNICs here (fun _ _ => rfl)
      (fun _ inside other word settings => (logger_others inside word settings).2.2 other) _ lines

/-- The filter and the logger that read one file come to their end, use the same device and logs of the
same size, and have room for as many NICs exactly if the file says for how many. -/
theorem programs_agree (atoi : Word → Int32) {turns : Nat} {file : List UInt8}
    {filterConf loggerConf : Conf} (filterOpened : filterConf.Opened file)
    (loggerOpened : loggerConf.Opened file) (text : TextFile file) (enough : file.length < turns) :
    ∃ filterAfter filter loggerAfter logger,
      (qxcParseConfig atoi turns).run.run filterConf = .ok (filterAfter, .ok filter) ∧
      (qxlParseConfig atoi turns).run.run loggerConf = .ok (loggerAfter, .ok logger) ∧
      filter.devname = logger.device ∧ filter.logPkts = logger.logpkts ∧
      (filter.maxNics = logger.maxNICs ↔ latest (givenTo "MAXNICS") (fileLines file) ≠ none) := by
  obtain ⟨filterAfter, filtered⟩ :=
    settings_read ParseFault.spent (qxcDirectives atoi) filterOpened text enough .default
  obtain ⟨loggerAfter, logged⟩ :=
    settings_read ParseFault.spent (qxlDirectives atoi) loggerOpened text enough .default
  obtain ⟨device, size, nics⟩ := filter_reads atoi (fileLines file)
  obtain ⟨device', size', nics'⟩ := logger_reads atoi (fileLines file)
  refine ⟨filterAfter, _, loggerAfter, _, filtered, logged, device.trans device'.symm,
    size.trans size'.symm, ?_⟩
  rw [nics, nics']
  -- without such a line the filter has room for 10 and the logger for 1000
  cases latest (givenTo "MAXNICS") (fileLines file) with
  | none => simp
  | some word => simp

end Agreement

def decimalWord (word : Word) : Int32 :=
  Int32.ofNat (word.foldl (fun number digit => number * 10 + (digit.toNat - 48)) 0)

/-- A file without a number of NICs. -/
def logText : String := "DEVICE /dev/bill\nLOGPKTS 500\n"

theorem log_size_is_shared : ∃ filterAfter filter loggerAfter logger,
    (qxcParseConfig decimalWord 40).run.run (opensText logText) = .ok (filterAfter, .ok filter) ∧
      (qxlParseConfig decimalWord 40).run.run (opensText logText) = .ok (loggerAfter, .ok logger) ∧
      filter.devname = logger.device ∧ filter.logPkts = logger.logpkts ∧
      filter.maxNics ≠ logger.maxNICs := by
  obtain ⟨filterAfter, filter, loggerAfter, logger, filtered, logged, device, size, nics⟩ :=
    programs_agree decimalWord (opensText_opened logText) (opensText_opened logText)
      (by decide +kernel) (by decide +kernel : (ascii logText).length < 40)
  exact ⟨filterAfter, filter, loggerAfter, logger, filtered, logged, device, size,
    fun same => nics.mp same (by decide +kernel)⟩

end QNXStuff.QXBilling
