/-!
# Fields

A term can address one of the system fields of an item by name.  A term on a
metadata statement can address one of the sub-fields of that statement.  Both
vocabularies are closed; a catalog decides which of their words a deployment
accepts.
-/

namespace SearchQuery

inductive Field where
  | all
  | fulltext
  | title
  | description
  | filename
  | fileextension
  | filetype
  | filesize
  | checksum
  | date
  | created
  | modified
  | time
  | collection
  | col
  | license
  | status
  | visibility
  | role
  | read
  | grant
  | grantType
  | grantFor
  | hasgrant
  | creator
  | creatorId
  | editor
  | collaborator
  | member
  | email
  | person
  | personId
  | personCompletename
  | personFamily
  | personGiven
  | personRole
  | personOrg
  | personOrgName
  | personOrgId
  | personOrgCity
  | personOrgCountry
  | personOrgDescription
  | family
  | collectionAuthor
  | collectionAuthorOrganisation
  | contPerson
  | contPersonOrg
  | prof
  | index
  | label
  | statement
  | metadatatype
  | text
  | number
  | url
  | location
  | technical
  | md
  deriving DecidableEq, Repr

namespace Field

def word : Field -> String
  | all => "all"
  | fulltext => "fulltext"
  | title => "title"
  | description => "description"
  | filename => "filename"
  | fileextension => "fileextension"
  | filetype => "filetype"
  | filesize => "filesize"
  | checksum => "checksum"
  | date => "date"
  | created => "created"
  | modified => "modified"
  | time => "time"
  | collection => "collection"
  | col => "col"
  | license => "license"
  | status => "status"
  | visibility => "visibility"
  | role => "role"
  | read => "read"
  | grant => "grant"
  | grantType => "grant_type"
  | grantFor => "grant_for"
  | hasgrant => "hasgrant"
  | creator => "creator"
  | creatorId => "creator_id"
  | editor => "editor"
  | collaborator => "collaborator"
  | member => "member"
  | email => "email"
  | person => "person"
  | personId => "person_id"
  | personCompletename => "person_completename"
  | personFamily => "person_family"
  | personGiven => "person_given"
  | personRole => "person_role"
  | personOrg => "person_org"
  | personOrgName => "person_org_name"
  | personOrgId => "person_org_id"
  | personOrgCity => "person_org_city"
  | personOrgCountry => "person_org_country"
  | personOrgDescription => "person_org_description"
  | family => "family"
  | collectionAuthor => "collection_author"
  | collectionAuthorOrganisation => "collection_author_organisation"
  | contPerson => "cont_person"
  | contPersonOrg => "cont_person_org"
  | prof => "prof"
  | index => "index"
  | label => "label"
  | statement => "statement"
  | metadatatype => "metadatatype"
  | text => "text"
  | number => "number"
  | url => "url"
  | location => "location"
  | technical => "technical"
  | md => "md"

def listing : List Field :=
  [.all, .fulltext, .title, .description, .filename, .fileextension, .filetype, .filesize,
    .checksum, .date, .created, .modified, .time, .collection, .col, .license, .status,
    .visibility, .role, .read, .grant, .grantType, .grantFor, .hasgrant, .creator,
    .creatorId, .editor, .collaborator, .member, .email, .person, .personId,
    .personCompletename, .personFamily, .personGiven, .personRole, .personOrg,
    .personOrgName, .personOrgId, .personOrgCity, .personOrgCountry, .personOrgDescription,
    .family, .collectionAuthor, .collectionAuthorOrganisation, .contPerson, .contPersonOrg,
    .prof, .index, .label, .statement, .metadatatype, .text, .number, .url, .location,
    .technical, .md]

/-- The field that a word addresses.  Case matters. -/
def ofWord? (word : String) : Option Field :=
  listing.find? (fun f => f.word == word)

theorem mem_listing (f : Field) : f ∈ listing := by
  cases f <;> decide

theorem ofWord?_word (f : Field) : ofWord? f.word = some f := by
  cases f <;> decide

theorem word_of_ofWord? {word : String} {f : Field}
    (h : ofWord? word = some f) : f.word = word := by
  have hf := List.find?_some h
  exact eq_of_beq hf

end Field

inductive Subfield where
  | text
  | number
  | date
  | time
  | exact
  | url
  | person
  | name
  | title
  | placename
  | coordinates
  | familyname
  | givenname
  | completename
  | organisation
  deriving DecidableEq, Repr

namespace Subfield

def word : Subfield -> String
  | text => "text"
  | number => "number"
  | date => "date"
  | time => "time"
  | exact => "exact"
  | url => "url"
  | person => "person"
  | name => "name"
  | title => "title"
  | placename => "placename"
  | coordinates => "coordinates"
  | familyname => "familyname"
  | givenname => "givenname"
  | completename => "completename"
  | organisation => "organisation"

def listing : List Subfield :=
  [.text, .number, .date, .time, .exact, .url, .person, .name, .title, .placename,
    .coordinates, .familyname, .givenname, .completename, .organisation]

def ofWord? (word : String) : Option Subfield :=
  listing.find? (fun f => f.word == word)

theorem ofWord?_word (f : Subfield) : ofWord? f.word = some f := by
  cases f <;> decide

theorem word_of_ofWord? {word : String} {f : Subfield}
    (h : ofWord? word = some f) : f.word = word := by
  have hf := List.find?_some h
  exact eq_of_beq hf

end Subfield

/-!
# Catalogs

A catalog resolves the names found in query text.  It may know fewer words than
the two vocabularies hold, and it may give a field a name of its own; what it
does not know is an error in a query and never free text.
-/

/-- The names that a query may use, and what they address. -/
structure Catalog where
  field? : String -> Option Field
  subfield? : String -> Option Subfield

namespace Catalog

def standard : Catalog where
  field? := Field.ofWord?
  subfield? := Subfield.ofWord?

def ofTables (fields : List (String × Field))
    (subfields : List (String × Subfield)) : Catalog where
  field? := fun name => fields.lookup name
  subfield? := fun name => subfields.lookup name

end Catalog

/-!
# Settings

How a query is read depends on two options, whether free text searches the
extracted full text too and how deep groups may nest, and on the catalog that
resolves its names.
-/

structure Options where
  fulltextFallback : Bool := true
  maxDepth : Nat := 64
  deriving DecidableEq, Repr

structure Settings extends Options where
  catalog : Catalog := .standard

end SearchQuery
