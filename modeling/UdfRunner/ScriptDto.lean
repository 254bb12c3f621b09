import UdfRunner.Messages

/-!
# Arguments of a single call (`script_data_transfer_objects.cc`)

Setters and getters throw a `DTOError`, which is a `std::exception`. `parameters` is a `std::map`, here
with its pairs in the order they came.
-/

namespace UdfRunner

abbrev DtoResult := Except Exception

structure ConnectionInformation where
  kind : ByteString := []
  address : ByteString := []
  user : ByteString := []
  password : ByteString := []
deriving DecidableEq, Repr

/-- `hasData` answers the opposite of its name; its callers negate it. -/
def ConnectionInformation.hasData (c : ConnectionInformation) : Bool := c.kind.length = 0

def ConnectionInformationRep.toDto (c : ConnectionInformationRep) : ConnectionInformation :=
  ⟨c.kind, c.address, c.user, c.password⟩

def dtoError {α : Type} (msg : String) : DtoResult α := .error (.std (str msg))

/-- The default constructor leaves `isSubselect_` unset. -/
structure ImportSpecification where
  isEmptySpec : Bool := true
  isSubselect : Bool := false
  subselectColumnNames : List ByteString := []
  subselectColumnTypes : List ByteString := []
  connectionName : ByteString := []
  connectionInformation : ConnectionInformation := {}
  parameters : List (ByteString × ByteString) := []
deriving DecidableEq, Repr

namespace ImportSpecification

def hasConnectionName (s : ImportSpecification) : Bool := 0 < s.connectionName.length

def hasConnectionInformation (s : ImportSpecification) : Bool :=
  s.connectionInformation.hasData = false

def appendSubselectColumnName (columnName : ByteString) (s : ImportSpecification) :
    DtoResult ImportSpecification :=
  if ¬ s.isSubselect then
    dtoError "import specification error: cannot add column name to non-subselect import specification"
  else .ok { s with subselectColumnNames := s.subselectColumnNames ++ [columnName] }

def appendSubselectColumnType (columnType : ByteString) (s : ImportSpecification) :
    DtoResult ImportSpecification :=
  if ¬ s.isSubselect then
    dtoError "import specification error: cannot add column type to non-subselect import specification"
  else .ok { s with subselectColumnTypes := s.subselectColumnTypes ++ [columnType] }

def setConnectionName (connectionName : ByteString) (s : ImportSpecification) :
    DtoResult ImportSpecification :=
  if s.hasConnectionName then
    dtoError "import specification error: connection name is set more than once"
  else if s.hasConnectionInformation then
    dtoError ("import specification error: cannot set connection name, because there is already "
      ++ "connection information set")
  else .ok { s with connectionName := connectionName }

def setConnectionInformation (c : ConnectionInformation) (s : ImportSpecification) :
    DtoResult ImportSpecification :=
  if s.hasConnectionName then
    dtoError ("import specification error: cannot set connection information, because there is already "
      ++ "a connection name set")
  else if s.hasConnectionInformation then
    dtoError "import specification error: cannot set connection information more than once"
  else .ok { s with connectionInformation := c }

def addParameter (key value : ByteString) (s : ImportSpecification) : DtoResult ImportSpecification :=
  if s.parameters.any (·.1 = key) then
    .error (.std (str "import specification error: parameter with name '" ++ key
      ++ str "', is set more than once"))
  else .ok { s with parameters := s.parameters ++ [(key, value)] }

def getSubselectColumnNames (s : ImportSpecification) : DtoResult (List ByteString) :=
  if ¬ s.isSubselect then
    dtoError "import specification error: cannot get column names of non-subselect import specification"
  else .ok s.subselectColumnNames

def getSubselectColumnTypes (s : ImportSpecification) : DtoResult (List ByteString) :=
  if ¬ s.isSubselect then
    dtoError "import specification error: cannot get column types of non-subselect import specification"
  else .ok s.subselectColumnTypes

def getConnectionName (s : ImportSpecification) : DtoResult ByteString :=
  if ¬ s.hasConnectionName then
    dtoError "import specification error: cannot get connection name because it is not set"
  else .ok s.connectionName

def getConnectionInformation (s : ImportSpecification) : DtoResult ConnectionInformation :=
  if ¬ s.hasConnectionInformation then
    dtoError "import specification error: cannot get connection information because it is not set"
  else .ok s.connectionInformation

end ImportSpecification

structure ExportSpecification where
  isEmptySpec : Bool := true
  connectionName : ByteString := []
  connectionInformation : ConnectionInformation := {}
  parameters : List (ByteString × ByteString) := []
  truncate : Bool := false
  replace : Bool := false
  createdBy : ByteString := []
  sourceColumnNames : List ByteString := []
deriving DecidableEq, Repr

namespace ExportSpecification

def hasConnectionName (s : ExportSpecification) : Bool := 0 < s.connectionName.length

def hasConnectionInformation (s : ExportSpecification) : Bool := !s.connectionInformation.hasData

def setConnectionName (connectionName : ByteString) (s : ExportSpecification) :
    DtoResult ExportSpecification :=
  if s.hasConnectionName then
    dtoError "export specification error: connection name is set more than once"
  else if s.hasConnectionInformation then
    dtoError ("export specification error: cannot set connection name, because there is already "
      ++ "connection information set")
  else .ok { s with isEmptySpec := false, connectionName := connectionName }

def setConnectionInformation (c : ConnectionInformation) (s : ExportSpecification) :
    DtoResult ExportSpecification :=
  if s.hasConnectionName then
    dtoError ("export specification error: cannot set connection information, because there is already "
      ++ "a connection name set")
  else if s.hasConnectionInformation then
    dtoError "export specification error: cannot set connection information more than once"
  else .ok { s with isEmptySpec := false, connectionInformation := c }

def addParameter (key value : ByteString) (s : ExportSpecification) : DtoResult ExportSpecification :=
  if s.parameters.any (·.1 = key) then
    .error (.std (str "export specification error: parameter with name '" ++ key
      ++ str "', is set more than once"))
  else .ok { s with isEmptySpec := false, parameters := s.parameters ++ [(key, value)] }

def setTruncate (truncate : Bool) (s : ExportSpecification) : ExportSpecification :=
  { s with isEmptySpec := false, truncate := truncate }

def setReplace (replace : Bool) (s : ExportSpecification) : ExportSpecification :=
  { s with isEmptySpec := false, replace := replace }

def setCreatedBy (createdBy : ByteString) (s : ExportSpecification) : DtoResult ExportSpecification :=
  if s.createdBy ≠ [] then
    dtoError "export specification error: cannot set created by more than once"
  else .ok { s with isEmptySpec := false, createdBy := createdBy }

def addSourceColumnName (sourceColumnName : ByteString) (s : ExportSpecification) :
    ExportSpecification :=
  { s with isEmptySpec := false, sourceColumnNames := s.sourceColumnNames ++ [sourceColumnName] }

def getConnectionName (s : ExportSpecification) : DtoResult ByteString :=
  if ¬ s.hasConnectionName then
    dtoError "export specification error: cannot get connection name because it is not set"
  else .ok s.connectionName

def getConnectionInformation (s : ExportSpecification) : DtoResult ConnectionInformation :=
  if ¬ s.hasConnectionInformation then
    dtoError "export specification error: cannot get connection information because it is not set"
  else .ok s.connectionInformation

end ExportSpecification

/-- The argument of `singleCall`. `StringDTO::isEmpty` is always false. -/
inductive ScriptDto
  | empty
  | importSpecification (s : ImportSpecification)
  | exportSpecification (s : ExportSpecification)
  | string (arg : ByteString)
deriving DecidableEq, Repr

end UdfRunner
