-- What an editor may say that it can do. The server needs little of it, but a call
-- is refused if any part that it knows has the wrong shape.
import CaplOutline.Json.Shape

namespace CaplOutline.Capability

open Shape

/-! ## Members -/

/-- A member that may be missing. -/
def maybe (name : String) (shape : Shape) : String × Shape := (name, optional shape)

def flag (name : String) : String × Shape := maybe name bool

/-- A record whose only member says whether a feature can be turned on later. -/
def dynamic : Shape := record [flag "dynamicRegistration"]

/-- A record whose only member says whether the editor can be told to ask again. -/
def refresh : Shape := record [flag "refreshSupport"]

/-- The members that can be filled in later. -/
def resolve : Shape := record [("properties", list string)]

def markup : Shape := list (word ["plaintext", "markdown"])

/-- Kinds, modes and tags are numbers. -/
def numbers : Shape := list signed

def kinds : Shape := record [maybe "valueSet" numbers]

def tags : Shape := record [("valueSet", numbers)]

/-- Some editors say just whether they know tags at all. -/
def tagsOrFlag : Shape := either bool tags

/-! ## The workspace -/

def workspaceEdit : Shape := record [
  flag "documentChanges",
  maybe "resourceOperations" (list (word ["create", "rename", "delete"])),
  maybe "failureHandling" (word ["abort", "transactional", "textOnlyTransactional", "undo"]),
  flag "normalizesLineEndings",
  maybe "changeAnnotationSupport" (record [flag "groupsOnLabel"])]

def workspaceSymbol : Shape := record [
  flag "dynamicRegistration",
  maybe "symbolKind" kinds,
  maybe "tagSupport" tagsOrFlag,
  maybe "resolveSupport" resolve]

def fileOperations : Shape := record [
  flag "dynamicRegistration",
  flag "didCreate",
  flag "willCreate",
  flag "didRename",
  flag "willRename",
  flag "didDelete",
  flag "willDelete"]

def workspace : Shape := record [
  flag "applyEdit",
  maybe "workspaceEdit" workspaceEdit,
  maybe "didChangeConfiguration" dynamic,
  maybe "didChangeWatchedFiles"
    (record [flag "dynamicRegistration", flag "relativePatternSupport"]),
  maybe "symbol" workspaceSymbol,
  maybe "executeCommand" dynamic,
  flag "workspaceFolders",
  flag "configuration",
  maybe "semanticTokens" refresh,
  maybe "codeLens" refresh,
  maybe "fileOperations" fileOperations,
  maybe "inlineValue" refresh,
  maybe "inlayHint" refresh,
  maybe "diagnostics" refresh]

/-! ## Documents -/

def synchronization : Shape := record [
  flag "dynamicRegistration",
  flag "willSave",
  flag "willSaveWaitUntil",
  flag "didSave"]

def completionItem : Shape := record [
  flag "snippetSupport",
  flag "commitCharactersSupport",
  maybe "documentationFormat" markup,
  flag "deprecatedSupport",
  flag "preselectSupport",
  maybe "tagSupport" tagsOrFlag,
  flag "insertReplaceSupport",
  maybe "resolveSupport" resolve,
  maybe "insertTextModeSupport" (record [("valueSet", numbers)]),
  flag "labelDetailsSupport"]

def completion : Shape := record [
  flag "dynamicRegistration",
  maybe "completionItem" completionItem,
  maybe "completionItemKind" kinds,
  flag "contextSupport",
  maybe "insertTextMode" signed,
  maybe "completionList" (record [maybe "itemDefaults" (list string)])]

def signatureInformation : Shape := record [
  maybe "documentationFormat" markup,
  maybe "parameterInformation" (record [flag "labelOffsetSupport"]),
  flag "activeParameterSupport"]

def signatureHelp : Shape := record [
  flag "dynamicRegistration",
  maybe "signatureInformation" signatureInformation,
  flag "contextSupport"]

def documentSymbol : Shape := record [
  flag "dynamicRegistration",
  maybe "symbolKind" kinds,
  flag "hierarchicalDocumentSymbolSupport",
  maybe "tagSupport" tagsOrFlag,
  flag "labelSupport"]

def goto : Shape := record [flag "dynamicRegistration", flag "linkSupport"]

def codeAction : Shape := record [
  flag "dynamicRegistration",
  maybe "codeActionLiteralSupport"
    (record [("codeActionKind", record [("valueSet", list string)])]),
  flag "isPreferredSupport",
  flag "disabledSupport",
  flag "dataSupport",
  maybe "resolveSupport" resolve,
  flag "honorsChangeAnnotations"]

def rename : Shape := record [
  flag "dynamicRegistration",
  flag "prepareSupport",
  maybe "prepareSupportDefaultBehavior" signed,
  flag "honorsChangeAnnotations"]

def publishDiagnostics : Shape := record [
  flag "relatedInformation",
  maybe "tagSupport" tagsOrFlag,
  flag "versionSupport",
  flag "codeDescriptionSupport",
  flag "dataSupport"]

def foldingRange : Shape := record [
  flag "dynamicRegistration",
  maybe "rangeLimit" unsigned,
  flag "lineFoldingOnly",
  maybe "foldingRangeKind"
    (record [maybe "valueSet" (list (word ["comment", "imports", "region"]))]),
  maybe "foldingRange" (record [flag "collapsedText"])]

def semanticTokens : Shape := record [
  flag "dynamicRegistration",
  ("requests", record [
    flag "range",
    maybe "full" (either bool (object [flag "delta"]))]),
  ("tokenTypes", list string),
  ("tokenModifiers", list string),
  ("formats", list string),
  flag "overlappingTokenSupport",
  flag "multilineTokenSupport",
  flag "serverCancelSupport",
  flag "augmentsSyntaxTokens"]

def diagnostic : Shape := record [
  flag "dynamicRegistration",
  flag "relatedDocumentSupport",
  flag "relatedInformation",
  maybe "tagSupport" tags,
  flag "codeDescriptionSupport",
  flag "dataSupport"]

def textDocument : Shape := record [
  maybe "synchronization" synchronization,
  maybe "completion" completion,
  maybe "hover" (record [flag "dynamicRegistration", maybe "contentFormat" markup]),
  maybe "signatureHelp" signatureHelp,
  maybe "references" dynamic,
  maybe "documentHighlight" dynamic,
  maybe "documentSymbol" documentSymbol,
  maybe "formatting" dynamic,
  maybe "rangeFormatting" dynamic,
  maybe "onTypeFormatting" dynamic,
  maybe "declaration" goto,
  maybe "definition" goto,
  maybe "typeDefinition" goto,
  maybe "implementation" goto,
  maybe "codeAction" codeAction,
  maybe "codeLens" dynamic,
  maybe "documentLink" (record [flag "dynamicRegistration", flag "tooltipSupport"]),
  maybe "colorProvider" dynamic,
  maybe "rename" rename,
  maybe "publishDiagnostics" publishDiagnostics,
  maybe "foldingRange" foldingRange,
  maybe "selectionRange" dynamic,
  maybe "linkedEditingRange" dynamic,
  maybe "callHierarchy" dynamic,
  maybe "semanticTokens" semanticTokens,
  maybe "moniker" dynamic,
  maybe "typeHierarchy" dynamic,
  maybe "inlineValue" dynamic,
  maybe "inlayHint" (record [flag "dynamicRegistration", maybe "resolveSupport" resolve]),
  maybe "diagnostic" diagnostic,
  maybe "inlineCompletion" dynamic]

/-! ## Notebooks, windows and the rest -/

def notebookDocument : Shape := record [
  ("synchronization", record [flag "dynamicRegistration", flag "executionSummaryReport"])]

def window : Shape := record [
  flag "workDoneProgress",
  maybe "showMessage"
    (record [maybe "messageActionItem" (record [flag "additionalPropertiesSupport"])]),
  maybe "showDocument" (record [("support", bool)])]

def general : Shape := record [
  maybe "regularExpressions" (record [("engine", string), maybe "version" string]),
  maybe "markdown" (record [
    ("parser", string),
    maybe "version" string,
    maybe "allowedTags" (list string)]),
  maybe "staleRequestSupport"
    (record [("cancel", bool), ("retryOnContentModified", list string)]),
  maybe "positionEncodings" (list string)]

/-- All that an editor says of itself. -/
def editor : Shape := record [
  maybe "workspace" workspace,
  maybe "textDocument" textDocument,
  maybe "notebookDocument" notebookDocument,
  maybe "window" window,
  maybe "general" general,
  maybe "offsetEncoding" (list string),
  maybe "experimental" any]

end CaplOutline.Capability
